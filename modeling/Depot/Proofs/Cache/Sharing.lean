import Depot.Batch
import Depot.Proofs.Cache.Canonical
import Depot.Proofs.Cache.Evictions
import Depot.Proofs.Cache.Keys

/-!
# Sharing of entries

Calls for the same set of roots share one entry of the cache, and calls for other sets never get it.
When a call has got a resolution, and until that is evicted, a call for the same roots in whatever
order and number gets the same object at once, without a look at the store. This is said of calls
that return one after the other, on any store and whatever becomes of it in between, and of calls
that come while others wait.
-/

namespace Depot

namespace Cache

variable {m m' : Cache} {k : RootKey} {x : CachedResolution}

/-- New slots come behind the old ones and hide none of them. -/
theorem get?_append {later : List Slot} (grown : m'.slots = m.slots ++ later)
    (found : m.get? k = some x) : m'.get? k = some x := by
  obtain ⟨s, hs, completed⟩ := get?_eq_some_iff.mp found
  refine get?_eq_some_iff.mpr ⟨s, ?_, completed⟩
  rw [mapped?] at hs ⊢
  rw [grown, List.find?_append, hs, Option.some_or]

namespace AtRest

theorem mapped?_eq_none (h : m.AtRest) (absent : m.get? k = none) : m.mapped? k = none := by
  cases found : m.mapped? k with
  | none => rfl
  | some s =>
    obtain ⟨x, hx⟩ := h.holds s (mem_of_mapped? found).1
    cases absent.symm.trans (get?_eq_some_iff.mpr ⟨s, found, hx.completed⟩)

theorem key_of_get? (h : m.AtRest) (found : m.get? k = some x) : x.key = k := by
  obtain ⟨s, hs, completed⟩ := get?_eq_some_iff.mp found
  obtain ⟨mem, -, key⟩ := mem_of_mapped? hs
  obtain ⟨y, hy⟩ := h.holds s mem
  cases hy.completed.symm.trans completed
  exact hy.key_eq.trans key

/-- An invalidation of something else leaves a resolution where it is. -/
theorem get?_invalidate (h : m.AtRest) {c : Coordinate} (found : m.get? k = some x)
    (apart : x.dependsOn c = false) : (m.invalidate c).2.get? k = some x := by
  obtain ⟨s, hs, completed⟩ := get?_eq_some_iff.mp found
  obtain ⟨y, hy⟩ := h.holds s (mem_of_mapped? hs).1
  cases hy.completed.symm.trans completed
  have current : s.outdated c = false := (hy.outdated c).trans apart
  refine get?_eq_some_iff.mpr ⟨s, ?_, completed⟩
  obtain ⟨here, front, back, split, earlier⟩ := List.find?_eq_some_iff_append.mp hs
  rw [mapped?, h.slots_invalidate c, List.find?_eq_some_iff_append]
  refine ⟨here, front.filter fun s => !s.outdated c, back.filter fun s => !s.outdated c, ?_, ?_⟩
  · rw [split, List.filter_append, List.filter_cons_of_pos (by simp [current])]
  · exact fun t ht => earlier t (List.mem_of_mem_filter ht)

/-- What a run leaves in the map is found there. -/
theorem get?_complete_create (h : m.AtRest) {call : Nat}
    {result : Except PackageError (Resolution × Classpath)} (absent : m.mapped? k = none)
    (ok : outcomeOf m.next k result = .ok x) :
    ((m.create call k).2.complete call m.next k result).2.get? k = some x := by
  rw [h.complete_create, ok]
  refine get?_eq_some_iff.mpr ⟨⟨m.next, k, true, [], some (call, .ok x)⟩, ?_, rfl⟩
  rw [mapped?] at absent ⊢
  simp [List.find?_append, absent, remains]

end AtRest

end Cache

/-! ### Calls one after the other -/

/-- What becomes of a repository and its store between calls. -/
inductive Deed (σ : Type) where
  | classpath (roots : List Coordinate)
  | edit (change : σ → σ)
  | writeArtifact (c : Coordinate) (kind : Kind) (b : Bytes)
  | manifestChanged (c : Coordinate)
  | clear

namespace Deed

variable {σ : Type} [ArtifactStore σ]

/-- Whether a deed takes a resolution out of the cache. -/
def Evicts (x : CachedResolution) : Deed σ → Prop
  | .writeArtifact c kind _ => kind = .manifest ∧ x.dependsOn c = true
  | .manifestChanged c => x.dependsOn c = true
  | .clear => True
  | _ => False

def step (r : Repository σ) : Deed σ → Repository σ
  | .classpath roots => (r.classpath roots).2
  | .edit change => { r with store := change r.store }
  | .writeArtifact c kind b => (r.writeArtifact c kind b).2
  | .manifestChanged c => (r.manifestChanged c).2
  | .clear => { r with cache := r.cache.clear }

def run (r : Repository σ) (deeds : List (Deed σ)) : Repository σ := deeds.foldl step r

end Deed

namespace Repository

variable {σ : Type} [ArtifactStore σ] {r : Repository σ} {roots a b : List Coordinate}
  {x : CachedResolution}

theorem ne_nil_of_classpath (answered : (r.classpath roots).1 = .ok x) : roots ≠ [] := by
  rintro rfl
  cases answered

theorem start_of_get? {m : Cache} {k : RootKey} (found : m.get? k = some x) (call : Nat) :
    m.start call k = (.hit x, { m with hits := m.hits + 1 }) := by
  obtain ⟨s, hs, completed⟩ := Cache.get?_eq_some_iff.mp found
  obtain ⟨runner, ho⟩ := Slot.completed?_eq_some.mp completed
  simp only [Cache.start, hs, ho]

/-- Whatever the store is, a call for a resolution that is in the cache gets that one. -/
theorem classpath_of_get? (named : roots ≠ []) (found : r.cache.get? (.ofRoots roots) = some x) :
    r.classpath roots = (.ok x, { r with cache := { r.cache with hits := r.cache.hits + 1 } }) := by
  have hn : roots.isEmpty = false := by simpa using named
  simp [classpath, hn, start_of_get? found]

theorem classpath_of_mapped? (named : roots ≠ [])
    (absent : r.cache.mapped? (.ofRoots roots) = none) : r.classpath roots =
      ((r.classpathRun roots).1, { r with cache := (r.classpathRun roots).2 }) := by
  have hn : roots.isEmpty = false := by simpa using named
  simp [classpath, hn, Cache.start, absent, Cache.create, classpathRun]

/-- What a call gets is in the cache under the key of its roots. -/
theorem get?_of_classpath (rest : r.cache.AtRest) (answered : (r.classpath roots).1 = .ok x) :
    (r.classpath roots).2.cache.get? (.ofRoots roots) = some x := by
  have named := ne_nil_of_classpath answered
  cases found : r.cache.get? (.ofRoots roots) with
  | some y =>
    rw [classpath_of_get? named found] at answered ⊢
    cases answered
    exact found
  | none =>
    have absent := rest.mapped?_eq_none found
    rw [classpath_of_mapped? named absent] at answered ⊢
    rw [classpathRun, rest.complete_create] at answered
    exact rest.get?_complete_create absent answered

theorem key_of_classpath (rest : r.cache.AtRest) (answered : (r.classpath roots).1 = .ok x) :
    x.key = .ofRoots roots := by
  have named := ne_nil_of_classpath answered
  rcases classpath_cases rest named with ⟨y, -, key, hit⟩ | ran
  · rw [hit] at answered
    cases answered
    exact key
  · rw [ran, classpathRun, rest.complete_create] at answered
    exact (fresh_of_outcomeOf answered).1

/-- A call adds to the slots or leaves them as they are. -/
theorem slots_classpath (rest : r.cache.AtRest) (roots : List Coordinate) :
    ∃ later, (r.classpath roots).2.cache.slots = r.cache.slots ++ later := by
  by_cases named : roots = []
  · subst named
    exact ⟨[], (List.append_nil _).symm⟩
  · rcases classpath_cases rest named with ⟨y, -, -, hit⟩ | ran
    · rw [hit]
      exact ⟨[], (List.append_nil _).symm⟩
    · rw [ran, classpathRun, rest.complete_create]
      exact ⟨_, rfl⟩

theorem atRest_classpath (rest : r.cache.AtRest) (roots : List Coordinate) :
    (r.classpath roots).2.cache.AtRest := by
  by_cases named : roots = []
  · subst named
    exact rest
  · rcases classpath_cases rest named with ⟨y, -, -, hit⟩ | ran
    · rw [hit]
      exact ⟨rest.holds, rest.numbered⟩
    · rw [ran]
      exact rest.create 0 _ _

theorem cache_writeAt (r : Repository σ) (c : Coordinate) (kind : Option Kind)
    (g : Option Signature) (b : Bytes) : (r.writeAt c kind g b).2.cache = r.cache := by
  unfold writeAt
  rcases located : r.prepare c kind g with ⟨l, r'⟩
  have prepared : r'.cache = r.cache := congrArg (fun p => p.2.cache) located.symm
  cases l with
  | error e => exact prepared
  | ok l =>
    rcases stored : r'.write l b with ⟨u, r''⟩
    have written : r''.cache = r'.cache := congrArg (fun p => p.2.cache) stored.symm
    dsimp only
    rw [stored]
    cases u <;> exact written.trans prepared

/-- To store a file is of no account to the cache, or else it is a manifest that has changed. -/
theorem cache_writeArtifact (r : Repository σ) (c : Coordinate) (kind : Kind) (b : Bytes) :
    (r.writeArtifact c kind b).2.cache = r.cache ∨
      kind = .manifest ∧ (r.writeArtifact c kind b).2.cache = (r.cache.invalidate c).2 := by
  have kept := cache_writeAt r c (some kind) none b
  unfold writeArtifact
  split
  · rename_i written
    rw [written] at kept
    exact .inl kept
  · rename_i written
    rw [written] at kept
    by_cases manifest : kind = .manifest
    · refine .inr ⟨manifest, ?_⟩
      simp only [if_pos manifest, manifestChanged]
      rw [kept]
    · exact .inl (by simpa only [if_neg manifest] using kept)

end Repository

namespace Deed

variable {σ : Type} [ArtifactStore σ] {r : Repository σ} {k : RootKey} {x : CachedResolution}

theorem atRest_step (rest : r.cache.AtRest) (d : Deed σ) : (step r d).cache.AtRest := by
  cases d with
  | classpath roots => exact Repository.atRest_classpath rest roots
  | edit change => exact rest
  | writeArtifact c kind b =>
    rcases r.cache_writeArtifact c kind b with same | ⟨-, changed⟩
    · exact same ▸ rest
    · exact changed ▸ rest.invalidate c
  | manifestChanged c => exact rest.invalidate c
  | clear => exact rest.clear

theorem atRest_run (rest : r.cache.AtRest) (deeds : List (Deed σ)) : (run r deeds).cache.AtRest := by
  induction deeds generalizing r with
  | nil => exact rest
  | cons d deeds ih => exact ih (atRest_step rest d)

/-- A resolution stays in the cache unless a deed takes it out. -/
theorem get?_step (rest : r.cache.AtRest) (found : r.cache.get? k = some x) {d : Deed σ}
    (kept : ¬ d.Evicts x) : (step r d).cache.get? k = some x := by
  cases d with
  | classpath roots =>
    obtain ⟨later, grown⟩ := Repository.slots_classpath rest roots
    exact Cache.get?_append grown found
  | edit change => exact found
  | writeArtifact c kind b =>
    rcases r.cache_writeArtifact c kind b with same | ⟨manifest, changed⟩
    · rwa [step, same]
    · rw [step, changed]
      exact rest.get?_invalidate found (Bool.eq_false_iff.mpr fun h => kept ⟨manifest, h⟩)
  | manifestChanged c => exact rest.get?_invalidate found (Bool.eq_false_iff.mpr kept)
  | clear => exact absurd trivial kept

theorem get?_run (rest : r.cache.AtRest) (found : r.cache.get? k = some x) {deeds : List (Deed σ)}
    (kept : ∀ d ∈ deeds, ¬ d.Evicts x) : (run r deeds).cache.get? k = some x := by
  induction deeds generalizing r with
  | nil => exact found
  | cons d deeds ih =>
    have now := get?_step rest found (kept d List.mem_cons_self)
    exact ih (atRest_step rest d) now fun d' hd => kept d' (List.mem_cons_of_mem d hd)

end Deed

namespace Repository

variable {σ : Type} [ArtifactStore σ] {r : Repository σ} {a : List Coordinate} {x : CachedResolution}

/-- The resolution of some roots answers for their set. A call for the same set gets it whatever
the store is, and alone in a batch it reads nothing. A call for another set gets something else. -/
structure Shares (r : Repository σ) (a : List Coordinate) (x : CachedResolution) : Prop where
  same : ∀ b, (∀ c, c ∈ a ↔ c ∈ b) → ∀ (τ : Type) [ArtifactStore τ] (s : τ),
    classpath ⟨s, r.options, r.cache⟩ b =
      (.ok x, ⟨s, r.options, { r.cache with hits := r.cache.hits + 1 }⟩)
  unread : ∀ b, (∀ c, c ∈ a ↔ c ∈ b) → ∀ units reads drop,
    ((Bench.mk r units reads).run [.classpath b drop]).1 = [.ok (.cached (some x))] ∧
      ((Bench.mk r units reads).run [.classpath b drop]).2.reads = []
  other : ∀ b, ¬ (∀ c, c ∈ a ↔ c ∈ b) → ∀ y, (r.classpath b).1 = .ok y →
    y.key = .ofRoots b ∧ y ≠ x

theorem ne_nil_of_members {a b : List Coordinate} (named : a ≠ []) (same : ∀ c, c ∈ a ↔ c ∈ b) :
    b ≠ [] := by
  obtain ⟨c, hc⟩ := List.exists_mem_of_ne_nil a named
  exact List.ne_nil_of_mem ((same c).mp hc)

theorem shares_of_get? (rest : r.cache.AtRest) (named : a ≠ [])
    (found : r.cache.get? (.ofRoots a) = some x) : r.Shares a x where
  same b same τ _ s := by
    rw [RootKey.ofRoots_eq_iff.mpr same] at found
    exact classpath_of_get? (r := ⟨s, r.options, r.cache⟩) (ne_nil_of_members named same) found
  unread b same units reads drop := by
    rw [RootKey.ofRoots_eq_iff.mpr same] at found
    have hn : b.isEmpty = false := by simpa using ne_nil_of_members named same
    simp [Bench.run, Bench.startAll, Bench.start, Bench.startClasspath, hn, start_of_get? found,
      Bench.withCache, Bench.dropAll, Bench.dropLater, Bench.finishAll]
  other b differs y answered := by
    have key := key_of_classpath rest answered
    refine ⟨key, ?_⟩
    rintro rfl
    exact differs (RootKey.ofRoots_eq_iff.mp ((rest.key_of_get? found).symm.trans key))

theorem shares_of_classpath (rest : r.cache.AtRest) (answered : (r.classpath a).1 = .ok x)
    {later : List (Deed σ)} (kept : ∀ d ∈ later, ¬ d.Evicts x) :
    (Deed.run (r.classpath a).2 later).Shares a x := by
  have rest' := atRest_classpath rest a
  have found := Deed.get?_run rest' (get?_of_classpath rest answered) kept
  exact shares_of_get? (Deed.atRest_run rest' later) (ne_nil_of_classpath answered) found

end Repository

/-! ### Calls that overlap -/

namespace Traffic

variable {t t' : Traffic} {e : Event} {call : Nat} {a : List Coordinate} {x : CachedResolution}

/-- What a call waits for is in the map if it does not fail, and so is what the call has got. -/
structure Backed (t : Traffic) (call : Nat) : Prop where
  waiting : ∀ slot, (call, slot) ∈ t.waiting → ∀ s ∈ t.cache.slots, s.number = slot →
    s.failed = false → s.mapped = true
  got : ∀ r ∈ t.receipts, r.call = call → ∀ x, r.outcome = .ok x → t.cache.get? x.key = some x

/-- Nothing is known yet of a call that has not come. -/
theorem Sound.backed (h : t.Sound) : t.Backed t.calls := by
  constructor
  · intro slot waits
    have early := h.waiting _ waits
    omega
  · intro r hr here
    have early := (h.receipts r hr).1
    omega

theorem Event.not_evicts (calm : ¬ e.Sweeps) (x : CachedResolution) : ¬ e.Evicts x := by
  cases e <;> simp_all [Event.Sweeps, Event.Evicts]

theorem Backed.step (h : t.Backed call) (sound : t.Sound) (seated : t.Seated) (calm : ¬ e.Sweeps) :
    (t.step e).Backed call := by
  have move := t.move_step e
  have stays : ∀ {k x}, t.cache.get? k = some x → (t.step e).cache.get? k = some x :=
    fun found => (sound.advances e).cache.kept _ _ found (Event.not_evicts calm _)
  constructor
  · intro slot waits s' hs' number unfailed'
    by_cases old : (call, slot) ∈ t.waiting
    · obtain ⟨s, hs, turns⟩ := move.slot_of_waiting sound seated old hs' number
      have unfailed : s.failed = false := by
        rcases turns.outcome with same | ⟨running, -⟩
        · rwa [Slot.failed, same] at unfailed'
        · rw [Slot.failed, running]
      have mapped := h.waiting slot old s hs (turns.number.symm.trans number) unfailed
      obtain ⟨u, hu, same, kept⟩ := move.stays_mapped sound calm hs mapped unfailed
      rwa [← (sound.step e).cache.eq_of_number hu hs' (same.trans turns.number.symm)]
    · exact (move.slot_of_joined sound waits old hs' number).2.1
  · intro r hr here x ok
    rcases move.receipts with same | ⟨new, grown, from_where⟩
    · exact stays (h.got r (same ▸ hr) here x ok)
    rw [grown] at hr
    rcases List.mem_append.mp hr with hr | hr
    · exact stays (h.got r hr here x ok)
    obtain rfl := List.mem_singleton.mp hr
    rcases from_where with ⟨roots, y, -, found, rfl⟩ | ⟨-, ⟨waits, s, hs, number, runner, ended⟩, -⟩
    · cases ok
      obtain ⟨s, mapped, completed⟩ := Cache.get?_eq_some_iff.mp found
      obtain ⟨hs, -, key⟩ := Cache.mem_of_mapped? mapped
      rw [(sound.cache.signed s hs x completed).2, key]
      exact stays found
    · rw [ok] at ended
      rw [here] at waits
      have completed := Slot.completed?_eq_some.mpr ⟨runner, ended⟩
      have mapped := h.waiting _ waits s hs number (by simp [Slot.failed, ended])
      rw [(sound.cache.signed s hs x completed).2]
      exact stays (Cache.get?_eq_some_iff.mpr ⟨s, sound.cache.mapped?_key hs mapped, completed⟩)

theorem Backed.run (h : t.Backed call) (sound : t.Sound) (seated : t.Seated) {events : List Event}
    (calm : ∀ e ∈ events, ¬ e.Sweeps) : (t.run events).Backed call := by
  induction events generalizing t with
  | nil => exact h
  | cons e events ih =>
    have now := h.step sound seated (calm e List.mem_cons_self)
    exact ih now (sound.step e) (seated.move sound (t.move_step e))
      fun e' he => calm e' (List.mem_cons_of_mem e he)

/-- The same for calls that overlap. A call for the set gets the resolution as it comes and does not
wait for any run. A call for another set never gets it, whatever happens until it returns. -/
structure Shares (t : Traffic) (a : List Coordinate) (x : CachedResolution) : Prop where
  same : ∀ b, (∀ c, c ∈ a ↔ c ∈ b) → t.step (.call b) = { t with
    cache := { t.cache with hits := t.cache.hits + 1 }
    calls := t.calls + 1
    receipts := t.receipts ++ [⟨t.calls, x.number, .ok x⟩] }
  other : ∀ b, ¬ (∀ c, c ∈ a ↔ c ∈ b) → ∀ later,
    ∀ r ∈ ((t.step (.call b)).run later).receipts, r.call = t.calls →
      ∀ y, r.outcome = .ok y → y.key = .ofRoots b ∧ y ≠ x

/-- What the next call gets, if it comes with some roots. -/
theorem key_of_receipt (events later : List Event) (b : List Coordinate) {r : Receipt}
    (hr : r ∈ (idle.run (events ++ .call b :: later)).receipts)
    (here : r.call = (idle.run events).calls) {y : CachedResolution} (ok : r.outcome = .ok y) :
    y.key = .ofRoots b := by
  have asks := (chronicle _).stamped r hr y ok
  have last := (asks_last events b).append later
  rw [List.append_assoc, List.singleton_append] at last
  rw [here, (chronicle events).calls] at asks
  exact asks.unique last

/-- From the success of a call on, if nothing was swept while it was under way and nothing has
evicted since what it got. -/
theorem shares_of_receipt (before during after : List Event)
    (calm : ∀ e ∈ during, ¬ e.Sweeps) {r : Receipt}
    (hr : r ∈ (idle.run (before ++ .call a :: during)).receipts)
    (here : r.call = (idle.run before).calls) (ok : r.outcome = .ok x)
    (kept : ∀ e ∈ after, ¬ e.Evicts x) :
    (idle.run (before ++ .call a :: during ++ after)).Shares a x := by
  have sound : (idle.run before).Sound := sound_idle.run before
  have seated : (idle.run before).Seated := seated_idle.run sound_idle before
  have key : x.key = .ofRoots a := key_of_receipt before during a hr here ok
  have backed : (idle.run (before ++ .call a :: during)).Backed (idle.run before).calls := by
    rw [run_append]
    refine sound.backed.run sound seated fun e he => ?_
    rcases List.mem_cons.mp he with rfl | he
    · exact id
    · exact calm e he
  have found : (idle.run (before ++ .call a :: during ++ after)).cache.get? (.ofRoots a) = some x := by
    rw [run_append, ← key]
    exact (sound_idle.run _).get?_run (backed.got r hr here x ok) kept
  constructor
  · intro b same
    rw [RootKey.ofRoots_eq_iff.mpr same] at found
    exact enter_of_get? found
  · intro b differs later r' hr' here' y ok'
    have key' : y.key = .ofRoots b := by
      refine key_of_receipt (before ++ .call a :: during ++ after) later b ?_ here' ok'
      rwa [run_append]
    refine ⟨key', ?_⟩
    rintro rfl
    exact differs (RootKey.ofRoots_eq_iff.mp (key.symm.trans key'))

end Traffic

/-- Two lists of roots have one key if they have the same members, whatever their order and number,
and only then, for a key is its members listed in their order. And who asks with the same key gets
the same object. When a call has returned a resolution, then until that is evicted every call for
the set gets it without a look at the store, and no call for another set gets it, whatever else is
done with the repository and whatever becomes of its store. So it is too if calls overlap, as long as
there was no eviction while the first one waited: then what it got would not be in the cache. -/
theorem equal_sets_share_an_entry :
    (∀ a b, RootKey.ofRoots a = RootKey.ofRoots b ↔ ∀ c, c ∈ a ↔ c ∈ b) ∧
    (IsStrictTotalOrder Coordinate Coordinate.Before ∧ ∀ a, (RootKey.ofRoots a).Lists a) ∧
    (∀ (σ : Type) [ArtifactStore σ] (store : σ) (options : ResolveOptions)
      (before later : List (Deed σ)) (a : List Coordinate) (x : CachedResolution),
      let r := Deed.run (.new store options) before
      (r.classpath a).1 = .ok x → (∀ d ∈ later, ¬ d.Evicts x) →
        (Deed.run (r.classpath a).2 later).Shares a x) ∧
    (∀ (before during after : List Traffic.Event) (a : List Coordinate) (x : CachedResolution)
      (slot : Nat), (∀ e ∈ during, ¬ e.Sweeps) →
      ⟨(Traffic.idle.run before).calls, slot, .ok x⟩ ∈
        (Traffic.idle.run (before ++ .call a :: during)).receipts →
      (∀ e ∈ after, ¬ e.Evicts x) →
        (Traffic.idle.run (before ++ .call a :: during ++ after)).Shares a x) := by
  refine ⟨fun a b => RootKey.ofRoots_eq_iff,
    ⟨Coordinate.isStrictTotalOrder_before, RootKey.lists_ofRoots⟩, ?_, ?_⟩
  · intro σ _ store options before later a x r answered kept
    exact Repository.shares_of_classpath (Deed.atRest_run Cache.atRest_empty before) answered kept
  · intro before during after a x slot calm got kept
    exact Traffic.shares_of_receipt before during after calm got rfl rfl kept

namespace Sample

/-- The store is emptied, a file comes into it, and another set of roots is asked for. -/
def meanwhile : List (Deed MemoryStore) :=
  [.edit fun _ => .empty, .writeArtifact core .jar [], .classpath [nextCore]]

theorem exists_classpath_shelf : ∃ x, (shelf.classpath [lib, core]).1 = .ok x := by
  have canonical : shelf.Canonical [lib, core] :=
    Repository.canonical_of_places (MemoryStore.places _) (by simp) rfl
  obtain ⟨x, answered, -⟩ := canonical.calm libFirst resolve_libFirst calm_libFirst
  exact ⟨x, answered⟩

def pair : CachedResolution := ⟨0, .ofRoots [app, core], (holding [app, core]).1, []⟩

end Sample

open Sample in
theorem equal_sets_share_an_entry_sample :
    (∃ x, (shelf.classpath [lib, core]).1 = .ok x ∧ (∀ d ∈ meanwhile, ¬ d.Evicts x) ∧
      ((Deed.run (shelf.classpath [lib, core]).2 meanwhile).classpath [core, lib, core]).1 = .ok x ∧
      ((Deed.run (shelf.classpath [lib, core]).2 meanwhile).classpath [lib]).1 ≠ .ok x) ∧
    ⟨0, 0, .ok pair⟩ ∈ (Traffic.idle.run [.call [app, core], .finish 0 (.ok (holding [app, core])),
      .deliver 0]).receipts ∧ pair.dependsOn lib = false ∧
    (Traffic.idle.run [.call [app, core], .finish 0 (.ok (holding [app, core])), .deliver 0,
      .invalidate lib, .call [core, app]]).receipts = [⟨0, 0, .ok pair⟩, ⟨1, 0, .ok pair⟩] := by
  obtain ⟨-, -, alone, together⟩ := equal_sets_share_an_entry
  have got : ⟨0, 0, .ok pair⟩ ∈ (Traffic.idle.run [.call [app, core],
      .finish 0 (.ok (holding [app, core])), .deliver 0]).receipts := by decide +kernel
  have apart : pair.dependsOn lib = false := by decide +kernel
  refine ⟨?_, got, apart, ?_⟩
  · obtain ⟨x, answered⟩ := exists_classpath_shelf
    have kept : ∀ d ∈ meanwhile, ¬ d.Evicts x := by simp [meanwhile, Deed.Evicts]
    have shares := alone MemoryStore shelf.store shelf.options [] meanwhile [lib, core] x answered kept
    refine ⟨x, answered, kept, ?_, fun again => ?_⟩
    · exact congrArg Prod.fst
        (shares.same [core, lib, core] (by simp [or_comm]) MemoryStore (Deed.run _ meanwhile).store)
    · refine (shares.other [lib] (fun same => ?_) x again).2 rfl
      have listed := (same core).mp (by simp)
      exact absurd listed (by decide +kernel)
  · have shares := together [] [.finish 0 (.ok (holding [app, core])), .deliver 0] [.invalidate lib]
      [app, core] pair 0 (by simp [Traffic.Event.Sweeps]) got (by simp [Traffic.Event.Evicts, apart])
    have called := shares.same [core, app] (by simp [or_comm])
    have before : (Traffic.idle.run ([] ++ .call [app, core] ::
        [.finish 0 (.ok (holding [app, core])), .deliver 0] ++ [.invalidate lib])).receipts =
          [⟨0, 0, .ok pair⟩] := by decide +kernel
    exact (congrArg Traffic.receipts called).trans (by rw [before]; rfl)

end Depot
