import Depot.Store.Basic
import Depot.Store.Contents

/-!
# The memory store

All contents in one map. The store can be taken offline, and then answers nothing.
-/

namespace Depot

open Text

structure MemoryStore where
  contents : Contents
  available : Bool
  deriving Repr

namespace MemoryStore

def scheme : String := "mem"

def empty : MemoryStore := ⟨.empty, true⟩

/-- Fails while the store is offline. -/
def online (s : MemoryStore) : Except StoreError Unit :=
  if s.available then .ok () else .error (.unavailable "memory store is offline")

def owned (l : Locator) : Except StoreError Unit :=
  if l.scheme = scheme then .ok () else .error (.foreignLocator l)

def locator (c : Coordinate) (kind : Option Kind) (signature : Option Signature)
    (writable : Bool) : Except StoreError Locator :=
  match Layout.path c kind signature with
  | .ok p => .ok ⟨scheme, p, writable⟩
  | .error f => .error (.invalidCoordinate f.message)

def locate (s : MemoryStore) (c : Coordinate) (kind : Option Kind)
    (signature : Option Signature) (writable : Bool) : Except StoreError Locator := do
  s.online
  locator c kind signature writable

/-- Of a directory, only the first path from it on is looked at: all paths in the directory
begin with its own path, and such paths follow one another in order. -/
def holds (s : MemoryStore) (l : Locator) : Bool :=
  if l.directory then
    match s.contents.firstFrom? l.path with
    | some p => startsWith p l.path
    | none => false
  else (s.contents.find? l.path).isSome

def hasContent (s : MemoryStore) (l : Locator) : Except StoreError Bool := do
  s.online
  owned l
  return s.holds l

def read (s : MemoryStore) (l : Locator) : Except StoreError Bytes := do
  s.online
  owned l
  match s.contents.find? l.path with
  | some b => .ok b
  | none => .error (.notFound l)

/-- Only a file can be written, and only through a locator opened for it. -/
def checkWrite (s : MemoryStore) (l : Locator) : Except StoreError Unit := do
  s.online
  owned l
  if l.writable && !l.directory then .ok () else .error (.readOnlyLocator l)

def write (s : MemoryStore) (l : Locator) (b : Bytes) : Except StoreError Unit × MemoryStore :=
  match s.checkWrite l with
  | .ok () => (.ok (), { s with contents := s.contents.insert l.path b })
  | .error e => (.error e, s)

/-- Take a content away. The answer tells whether there was one. -/
def remove (s : MemoryStore) (l : Locator) : Except StoreError (Bool × MemoryStore) := do
  s.online
  owned l
  return ((s.contents.find? l.path).isSome, { s with contents := s.contents.erase l.path })

/-- Store a manifest where the layout puts it, also while the store is offline. -/
def putManifest (s : MemoryStore) (c : Coordinate) (b : Bytes) :
    Except StoreError Unit × MemoryStore :=
  match Layout.path c (some .manifest) none with
  | .ok p => (.ok (), { s with contents := s.contents.insert p b })
  | .error f => (.error (.invalidCoordinate f.message), s)

theorem contents_finite (s : MemoryStore) :
    ∃ bs : List Bytes, ∀ l b, s.read l = .ok b → b ∈ bs := by
  refine ⟨s.contents.values, fun l b h => ?_⟩
  unfold read at h
  cases ho : s.online with
  | error e => simp [ho, bind, Except.bind] at h
  | ok u =>
    cases hw : owned l with
    | error e => simp [ho, hw, bind, Except.bind] at h
    | ok v =>
      simp only [ho, hw, bind, Except.bind] at h
      split at h
      · simp only [Except.ok.injEq] at h
        subst h
        exact Contents.mem_values_of_find? (by assumption)
      · simp at h

instance : ArtifactStore MemoryStore where
  locate s c k g := s.locate c k g false
  prepare s c k g := (s.locate c k g true, s)
  hasContent := hasContent
  read := read
  write := write
  contents_finite := contents_finite

end MemoryStore

end Depot
