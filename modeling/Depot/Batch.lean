import Depot.Repository
import Depot.Units

/-!
# Calls that run together

A batch of calls on one repository and its loaded units. The calls are started in order, and
each goes on until it has to read from the store or to wait for another call. When all have
been started, those that are to be dropped are dropped, and then the others read and end, in
order. So a call that reads nothing is over before the next one starts, and all reads see the
store as the whole batch has left it. Whoever takes over a run from a dropped call goes on
until it has to read, before the next call is dropped.
-/

namespace Depot

/-- When a call for a classpath is given up: as soon as it waits, or when all have started. -/
inductive Drop where
  | now
  | later
  deriving DecidableEq, Repr

inductive Answer where
  | nothing
  | flag (b : Bool)
  | count (n : Nat)
  | locator (l : Locator)
  | bytes (b : Bytes)
  | coordinates (cs : List Coordinate)
  | dependencies (ds : List Dependency)
  | resolution (r : Resolution)
  | cached (r : Option CachedResolution)
  | loaded (u : LoadedUnit)
  | bundle (b : Bundle)
  | classpath (cp : Classpath)
  | dropped

/-- An `edit` changes the store behind the back of the repository. -/
inductive Call (σ : Type) where
  | locate (c : Coordinate) (kind : Option Kind) (signature : Option Signature)
  | prepare (c : Coordinate) (kind : Option Kind) (signature : Option Signature)
  | hasContent (l : Locator)
  | read (l : Locator)
  | write (l : Locator) (b : Bytes)
  | writeSignature (c : Coordinate) (kind : Kind) (signature : Option Signature) (b : Bytes)
  | writeArtifact (c : Coordinate) (kind : Kind) (b : Bytes)
  | readArtifact (c : Coordinate) (kind : Kind)
  | hasSignature (c : Coordinate) (kind : Kind) (signature : Signature)
  | exists (c : Coordinate)
  | existsAny (cs : List Coordinate)
  | dependencies (c : Coordinate)
  | resolve (roots : List Coordinate)
  | classpath (roots : List Coordinate) (drop : Option Drop)
  | manifestChanged (c : Coordinate)
  | cached (roots : List Coordinate)
  | clearCache
  | loadUnit (r : CachedResolution)
  | loadBundle (cp : Classpath)
  | evictUnit (roots : List Coordinate)
  | assemble (entries : List Entry)
  | edit (change : σ → Except StoreError Answer × σ)

/-- The places of manifests that were looked up before the reads began, by the coordinate that
they were looked up for. -/
abbrev Places := List (Coordinate × Except StoreError Locator)

inductive Waiting where
  | read (l : Locator)
  | dependencies (c : Coordinate) (l : Locator)
  | resolve (roots : List Coordinate) (places : Places)
  | classpath (call slot : Nat) (k : RootKey) (places : Places) (drop : Option Drop)
  | loadUnit (slot : Nat) (cp : Classpath)
  | loadBundle (cp : Classpath)

inductive Progress where
  | done (answer : Except PackageError Answer)
  | waits (w : Waiting)

/-- A repository and its units, with the paths that were read. -/
structure Bench (σ : Type) where
  repository : Repository σ
  units : Units
  reads : List String

namespace Bench

variable {σ : Type} [ArtifactStore σ]

def store (b : Bench σ) : σ := b.repository.store

def new (r : Repository σ) : Bench σ := ⟨r, .empty, []⟩

def withCache (b : Bench σ) (cache : Cache) : Bench σ :=
  { b with repository := { b.repository with cache } }

def noteReads (b : Bench σ) (ls : List Locator) : Bench σ :=
  { b with reads := b.reads ++ ls.map Locator.path }

def ofStore {α : Type} (f : α → Answer) (e : Except StoreError α) : Progress :=
  .done (match e with
    | .ok a => .ok (f a)
    | .error e => .error (.store e))

/-- The manifests of the roots are looked up with so many fetches under way at a time. One that
cannot be found makes room for another, as long as none before it is under way. -/
def firstPlaces (s : σ) (maxFetches : Nat) (roots : List Coordinate) : Places :=
  let admitted := (Resolution.empty.meetAll (roots.map Pending.root)).2
  let places := admitted.map fun p =>
    (p.coordinate, ArtifactStore.manifestLocator s p.coordinate)
  let failing := places.takeWhile fun p => match p.2 with
    | .ok _ => false
    | .error _ => true
  places.take (failing.length + maxFetches)

def Places.waits (ps : Places) : Bool := ps.any fun p => match p.2 with
  | .ok _ => true
  | .error _ => false

/-- Where the manifest of a coordinate lies. A place that was looked up before counts for its
coordinate only, and not for one with another classifier. -/
def placeOf (s : σ) (ps : Places) (c : Coordinate) : Except StoreError Locator :=
  match ps.lookup c with
  | some l => l
  | none => ArtifactStore.manifestLocator s c

/-- Resolve and note what was read. -/
def runResolve (b : Bench σ) (places : Places) (roots : List Coordinate) :
    Except ResolveError Resolution × Bench σ :=
  let place := placeOf b.store places
  let run := resolve (ArtifactStore.catalogVia place b.store) b.repository.options.scopes roots
  let read := run.fetched.filterMap fun c => match place c with
    | .ok l => some l
    | .error _ => none
  (run.outcome, b.noteReads read)

def answerResolve : Except ResolveError Resolution → Except PackageError Answer
  | .ok r => .ok (.resolution r)
  | .error e => .error (.resolve e)

def answerOutcome : Outcome → Except PackageError Answer
  | .ok r => .ok (.cached (some r))
  | .error e => .error e

/-- Run the resolution of a slot and hand it to the caller that ran. -/
def runSlot (b : Bench σ) (call slot : Nat) (k : RootKey) (places : Places) : Outcome × Bench σ :=
  let (o, b) := b.runResolve places k.toList
  let (o, cache) :=
    b.repository.cache.complete call slot k (Repository.assembled b.store o)
  (o, b.withCache cache)

def startClasspath (b : Bench σ) (call : Nat) (roots : List Coordinate) (drop : Option Drop) :
    Progress × Bench σ :=
  if roots.isEmpty then (.done (.error (.resolve .noRoots)), b)
  else
    let k := RootKey.ofRoots roots
    match b.repository.cache.start call k with
    | (.hit r, cache) => (.done (.ok (.cached (some r))), b.withCache cache)
    | (.joined slot runs, cache) =>
      let b := b.withCache cache
      let places := if runs then firstPlaces b.store b.repository.options.maxFetches k.toList else []
      if runs && !Places.waits places then
        let (o, b) := b.runSlot call slot k places
        (.done (answerOutcome o), b)
      else if drop = some .now then
        (.done (.ok .dropped), b.withCache (b.repository.cache.cancel call slot))
      else (.waits (.classpath call slot k places drop), b)

/-- Load the bundle of a unit slot, unless another caller has done so. -/
def runLoad (b : Bench σ) (slot : Nat) (cp : Classpath) : Except LoadError LoadedUnit × Bench σ :=
  let isLoaded := ((b.units.slot? slot).bind UnitSlot.loaded).isSome
  let (u, units) := b.units.finish slot (Bundle.load b.store cp)
  (u, { b with units }.noteReads (if isLoaded then [] else Bundle.reads b.store cp))

def answerLoad : Except LoadError LoadedUnit → Except PackageError Answer
  | .ok u => .ok (.loaded u)
  | .error e => .error (.load e)

def answerBundle : Except LoadError Bundle → Except PackageError Answer
  | .ok x => .ok (.bundle x)
  | .error e => .error (.load e)

/-- Start one call. -/
def start (call : Nat) (b : Bench σ) : Call σ → Progress × Bench σ
  | .locate c k g => (ofStore .locator (b.repository.locate c k g), b)
  | .prepare c k g =>
    let (l, repository) := b.repository.prepare c k g
    (ofStore .locator l, { b with repository })
  | .hasContent l => (ofStore .flag (ArtifactStore.hasContent b.store l), b)
  | .read l => (.waits (.read l), b)
  | .write l x =>
    let (u, repository) := b.repository.write l x
    (ofStore (fun _ => .nothing) u, { b with repository })
  | .writeSignature c k g x =>
    let (l, repository) := b.repository.writeAt c (some k) g x
    (ofStore .locator l, { b with repository })
  | .writeArtifact c k x =>
    let (l, repository) := b.repository.writeArtifact c k x
    (ofStore .locator l, { b with repository })
  | .readArtifact c k =>
    match b.repository.locate c (some k) none with
    | .ok l => (.waits (.read l), b)
    | .error e => (.done (.error (.store e)), b)
  | .hasSignature c k g => (ofStore .flag (b.repository.hasSignature c k g), b)
  | .exists c => (ofStore .flag (b.repository.exists c), b)
  | .existsAny cs => (ofStore .coordinates (b.repository.existsAny cs), b)
  | .dependencies c =>
    match ArtifactStore.manifestLocator b.store c with
    | .ok l => (.waits (.dependencies c l), b)
    | .error e => (.done (.error (.store e)), b)
  | .resolve roots =>
    let places := firstPlaces b.store b.repository.options.maxFetches roots
    if Places.waits places then (.waits (.resolve roots places), b)
    else
      let (o, b) := b.runResolve places roots
      (.done (answerResolve o), b)
  | .classpath roots drop => b.startClasspath call roots drop
  | .manifestChanged c =>
    let (n, repository) := b.repository.manifestChanged c
    (.done (.ok (.count n)), { b with repository })
  | .cached roots =>
    (.done (.ok (.cached (b.repository.cache.get? (RootKey.ofRoots roots)))), b)
  | .clearCache => (.done (.ok .nothing), b.withCache b.repository.cache.clear)
  | .loadUnit r =>
    let (s, units) := b.units.start r
    let b := { b with units }
    if s.loaded.isNone && !r.classpath.isEmpty then (.waits (.loadUnit s.number r.classpath), b)
    else
      let (u, b) := b.runLoad s.number r.classpath
      (.done (answerLoad u), b)
  | .loadBundle cp =>
    if cp.isEmpty then (.done (answerBundle (Bundle.load b.store cp)), b)
    else (.waits (.loadBundle cp), b)
  | .evictUnit roots =>
    let (found, units) := b.units.evict (RootKey.ofRoots roots)
    (.done (.ok (.flag found)), { b with units })
  | .assemble entries => (ofStore .classpath (Classpath.assemble b.store entries), b)
  | .edit change =>
    let (a, store) := change b.store
    (ofStore id a, { b with repository := { b.repository with store } })

def startAll (call : Nat) (b : Bench σ) : List (Call σ) → List Progress × Bench σ
  | [] => ([], b)
  | c :: cs =>
    let (p, b) := b.start call c
    let (ps, b) := startAll (call + 1) b cs
    (p :: ps, b)

/-- The next caller of a slot takes over the run. If it has nothing to read, the run ends at
once, and all callers of the slot get its outcome. -/
def takeOver (b : Bench σ) (slot : Nat) (k : RootKey) : Bench σ :=
  if (b.repository.cache.running? slot).isNone ||
      Places.waits (firstPlaces b.store b.repository.options.maxFetches k.toList) then b
  else
    let (o, b) := b.runResolve [] k.toList
    let o := Cache.outcomeOf slot k (Repository.assembled b.store o)
    b.withCache (b.repository.cache.finish slot o)

/-- Drop a call that is to be dropped when all have started, unless its slot has an outcome
by now. -/
def dropLater (b : Bench σ) : Progress → Progress × Bench σ
  | .waits (.classpath call slot k places (some .later)) =>
    match b.repository.cache.running? slot with
    | none => (.waits (.classpath call slot k places none), b)
    | some runner =>
      let b := b.withCache (b.repository.cache.cancel call slot)
      (.done (.ok .dropped), if runner = call then b.takeOver slot k else b)
  | p => (p, b)

def dropAll (b : Bench σ) : List Progress → List Progress × Bench σ
  | [] => ([], b)
  | p :: ps =>
    let (p, b) := b.dropLater p
    let (ps, b) := dropAll b ps
    (p :: ps, b)

/-- Read and end one call. -/
def finish (b : Bench σ) : Waiting → Except PackageError Answer × Bench σ
  | .read l =>
    (match ArtifactStore.read b.store l with
      | .ok x => .ok (.bytes x)
      | .error e => .error (.store e), b.noteReads [l])
  | .dependencies c l =>
    (match ArtifactStore.fetchAt b.store c l with
      | .ok m => .ok (.dependencies (Repository.followed b.repository.options m))
      | .error e => .error (.ofFetch e), b.noteReads [l])
  | .resolve roots places =>
    let (o, b) := b.runResolve places roots
    (answerResolve o, b)
  | .classpath call slot k places _ =>
    match b.repository.cache.deliver call slot with
    | some (o, cache) => (answerOutcome o, b.withCache cache)
    | none =>
      let (o, b) := b.runSlot call slot k places
      (answerOutcome o, b)
  | .loadUnit slot cp =>
    let (u, b) := b.runLoad slot cp
    (answerLoad u, b)
  | .loadBundle cp =>
    (answerBundle (Bundle.load b.store cp), b.noteReads (Bundle.reads b.store cp))

def finishAll (b : Bench σ) : List Progress → List (Except PackageError Answer) × Bench σ
  | [] => ([], b)
  | .done a :: ps =>
    let (as, b) := finishAll b ps
    (a :: as, b)
  | .waits w :: ps =>
    let (a, b) := b.finish w
    let (as, b) := finishAll b ps
    (a :: as, b)

/-- Run calls together. The reads that are noted are those of this batch, by path. -/
def run (b : Bench σ) (calls : List (Call σ)) : List (Except PackageError Answer) × Bench σ :=
  let (ps, b) := { b with reads := [] }.startAll 0 calls
  let (ps, b) := b.dropAll ps
  let (answers, b) := b.finishAll ps
  (answers, { b with reads := b.reads.mergeSort (fun x y => decide (x ≤ y)), units := b.units.settle })

end Bench

end Depot
