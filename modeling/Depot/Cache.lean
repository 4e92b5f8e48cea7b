import Depot.Classpath

/-!
# The resolution cache

One slot for each set of roots. The first caller of an empty slot runs the resolution; callers
that come while it runs wait for the same outcome. When the running caller is dropped, the one
that has waited longest runs in its place. A failed slot is taken out when its outcome is
handed out, so failures are shared but not kept.

Invalidation takes slots out of the map. Callers that wait on such a slot still get its
outcome, but nobody can join it any more.
-/

namespace Depot

/-- A set of roots: their order and repetition make no difference. -/
abbrev RootKey := OrderedSet Coordinate

namespace RootKey

def ofRoots (roots : List Coordinate) : RootKey := .ofList roots

def text (k : RootKey) : String := Text.join "," (k.toList.map Coordinate.text)

end RootKey

/-- Everything that a repository answers when it fails. -/
inductive PackageError where
  | store (error : StoreError)
  | manifest (error : ManifestError)
  | resolve (error : ResolveError)
  | load (error : LoadError)
  deriving DecidableEq, Repr

def PackageError.message : PackageError → String
  | .store e => e.message
  | .manifest e => e.message
  | .resolve e => e.message
  | .load e => e.message

def PackageError.ofReason : BranchReason → PackageError
  | .unreachable e => .store e
  | .invalidCoordinate r => .store (.invalidCoordinate r)
  | .identityMismatch c d => .manifest (.identityMismatch c d)
  | .malformed e => .manifest e

def PackageError.ofFetch (e : FetchError) : PackageError := .ofReason e.reason

/-- A resolution and its classpath. The number tells objects apart that hold the same. -/
structure CachedResolution where
  number : Nat
  key : RootKey
  resolution : Resolution
  classpath : Classpath
  deriving DecidableEq, Repr

def CachedResolution.dependsOn (r : CachedResolution) (c : Coordinate) : Bool :=
  r.resolution.dependsOn c

abbrev Outcome := Except PackageError CachedResolution

/-- The callers are in the order in which they came. As long as there is no outcome, the first
of them is running. The outcome remembers who ran. -/
structure Slot where
  number : Nat
  key : RootKey
  mapped : Bool
  callers : List Nat
  outcome : Option (Nat × Outcome)
  deriving Repr

namespace Slot

def completed? (s : Slot) : Option CachedResolution :=
  match s.outcome with
  | some (_, .ok r) => some r
  | _ => none

def failed (s : Slot) : Bool :=
  match s.outcome with
  | some (_, .error _) => true
  | _ => false

/-- A slot outside of the map that nobody waits on cannot be seen again. -/
def reachable (s : Slot) : Bool := s.mapped || !s.callers.isEmpty

/-- Whether a changed manifest takes the slot out: it may be in the resolution, or the run may
have read it already. -/
def outdated (c : Coordinate) (s : Slot) : Bool :=
  match s.outcome with
  | none => true
  | some (_, .ok r) => r.dependsOn c
  | some (_, .error _) => false

end Slot

/-- The counters are natural numbers. Those of 64 bits, which begin again at zero, show the same as
long as fewer than `2 ^ 64` events have come: an event counts one call at most, and a slot, which a
call opened, is taken out once at most. -/
structure Cache where
  slots : List Slot
  next : Nat
  hits : Nat
  misses : Nat
  invalidations : Nat
  deriving Repr

namespace Cache

def empty : Cache := ⟨[], 0, 0, 0, 0⟩

def mapped? (m : Cache) (k : RootKey) : Option Slot :=
  m.slots.find? fun s => s.mapped && s.key = k

def slot? (m : Cache) (number : Nat) : Option Slot := m.slots.find? (·.number = number)

/-- Change one slot. -/
def modify (number : Nat) (f : Slot → Slot) (m : Cache) : Cache :=
  { m with slots := m.slots.map fun s => if s.number = number then f s else s }

def collect (m : Cache) : Cache := { m with slots := m.slots.filter Slot.reachable }

/-- What a new caller gets: a resolution at once, or a slot to wait on, in which it may be the
one that runs. -/
inductive Started where
  | hit (r : CachedResolution)
  | joined (slot : Nat) (runs : Bool)

/-- A slot for a key that has none, with its first caller. -/
def create (call : Nat) (k : RootKey) (m : Cache) : Started × Cache :=
  (.joined m.next true,
    { m with slots := m.slots ++ [⟨m.next, k, true, [call], none⟩], next := m.next + 1 })

def unmap (number : Nat) (m : Cache) : Cache :=
  (m.modify number fun s => { s with mapped := false }).collect

/-- A call for a key. A failed slot that is still there is taken out first. -/
def start (call : Nat) (k : RootKey) (m : Cache) : Started × Cache :=
  match m.mapped? k with
  | none => m.create call k
  | some s =>
    match s.outcome with
    | some (_, .ok r) => (.hit r, { m with hits := m.hits + 1 })
    | some (_, .error _) => (m.unmap s.number).create call k
    | none =>
      (.joined s.number s.callers.isEmpty,
        m.modify s.number fun s => { s with callers := s.callers ++ [call] })

/-- The run of a slot has ended. -/
def finish (number : Nat) (o : Outcome) (m : Cache) : Cache :=
  m.modify number fun s =>
    match s.callers with
    | [] => s
    | runner :: _ => { s with outcome := some (runner, o) }

/-- A caller takes the outcome with it. Who ran counts as a miss, who waited as a hit, and a
failed slot leaves the map. -/
def leave (call number : Nat) (ran : Bool) (o : Outcome) (m : Cache) : Cache :=
  let m := if ran then { m with misses := m.misses + 1 } else { m with hits := m.hits + 1 }
  let keep := match o with
    | .ok _ => true
    | .error _ => false
  (m.modify number fun s =>
    { s with callers := s.callers.erase call, mapped := s.mapped && keep }).collect

/-- Hand the outcome of a slot, if there is one, to a caller that waited for it. -/
def deliver (call number : Nat) (m : Cache) : Option (Outcome × Cache) :=
  match (m.slot? number).bind Slot.outcome with
  | none => none
  | some (runner, o) => some (o, m.leave call number (runner = call) o)

/-- What a run of a slot hands out. -/
def outcomeOf (number : Nat) (k : RootKey)
    (result : Except PackageError (Resolution × Classpath)) : Outcome :=
  result.map fun p => ⟨number, k, p.1, p.2⟩

/-- The running caller ends the run and takes the outcome. -/
def complete (call number : Nat) (k : RootKey)
    (result : Except PackageError (Resolution × Classpath)) (m : Cache) : Outcome × Cache :=
  let o := outcomeOf number k result
  (o, (m.finish number o).leave call number true o)

/-- The caller that runs a slot, as long as there is no outcome. -/
def running? (number : Nat) (m : Cache) : Option Nat :=
  (m.slot? number).bind fun s => if s.outcome.isSome then none else s.callers.head?

/-- A caller goes away. The slot stays in the map, also when nobody is left. -/
def cancel (call number : Nat) (m : Cache) : Cache :=
  (m.modify number fun s => { s with callers := s.callers.erase call }).collect

/-- The manifest of a coordinate changed. Runs in flight and the resolutions that may have
read it go, and are counted; failed slots go uncounted. -/
def invalidate (c : Coordinate) (m : Cache) : Nat × Cache :=
  let evicted := m.slots.countP fun s => s.mapped && s.outdated c
  (evicted, collect { m with
    slots := m.slots.map fun s =>
      { s with mapped := s.mapped && !s.outdated c && !s.failed }
    invalidations := m.invalidations + evicted })

def clear (m : Cache) : Cache :=
  collect { m with slots := m.slots.map fun s => { s with mapped := false } }

/-- The number of completed resolutions in the map. -/
def size (m : Cache) : Nat := m.slots.countP fun s => s.mapped && s.completed?.isSome

def get? (m : Cache) (k : RootKey) : Option CachedResolution := (m.mapped? k).bind Slot.completed?

end Cache

end Depot
