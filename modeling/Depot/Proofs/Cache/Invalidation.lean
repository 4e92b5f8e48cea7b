import Depot.Proofs.Cache.Traffic
import Depot.Proofs.Resolution.Table

/-!
# Calls after an invalidation

The manifest of a coordinate has changed and the cache has been told. A call that comes later gets
nothing that may be older than the change, whatever runs end or are given up in the meantime: what
it gets is from a slot opened since, or it was complete by then and does not depend on the changed
coordinate. Such a resolution stays in the map, and later calls get it without a run.
-/

namespace Depot

namespace Cache

variable {m m' : Cache} {t : Slot} {c : Coordinate}

/-- What is in the map at any time after an invalidation is new, or it is a resolution that does
not depend on the changed coordinate. -/
theorem Follows.of_invalidate (h : (m.invalidate c).2.Follows m') (ht : t ∈ m'.slots)
    (mapped : t.mapped = true) : m.next ≤ t.number ∨ ∃ s ∈ m.slots, s.number = t.number ∧
      ∃ x, s.completed? = some x ∧ x.dependsOn c = false ∧ t.completed? = some x := by
  rcases h.origin t ht with ⟨u, hu, becomes⟩ | new
  · obtain ⟨s, hs, number, ho, x, completed, apart⟩ := mem_invalidate hu (becomes.mapped mapped)
    have carried : u.completed? = some x := by
      rw [← completed, Slot.completed?, Slot.completed?, ho]
    exact .inr ⟨s, hs, number.trans becomes.number.symm, x, completed, apart,
      becomes.completed? carried⟩
  · exact .inl new

end Cache

namespace Traffic

variable {t t' : Traffic} {c : Coordinate}

/-- What a call may get when the manifest of a coordinate has changed. -/
def Current (t : Traffic) (c : Coordinate) (a : Receipt) : Prop :=
  t.cache.next ≤ a.slot ∨ ∃ s ∈ t.cache.slots, s.number = a.slot ∧
    ∃ x, s.completed? = some x ∧ x.dependsOn c = false ∧ a.outcome = .ok x

/-- What holds from an invalidation on: calls that have come since wait on new slots only, and what
they have got is current. -/
structure Since (t : Traffic) (c : Coordinate) (t' : Traffic) : Prop where
  follows : (t.cache.invalidate c).2.Follows t'.cache
  waiting : ∀ p ∈ t'.waiting, t.calls ≤ p.1 → t.cache.next ≤ p.2
  receipts : ∀ a ∈ t'.receipts, t.calls ≤ a.call → t.Current c a

namespace Since

theorem invalidate (h : t.Sound) (c : Coordinate) : t.Since c (t.step (.invalidate c)) := by
  constructor
  · exact .refl _
  · intro p hp late
    exact absurd (h.waiting p hp) (Nat.not_lt.mpr late)
  · intro a ha late
    exact absurd (h.receipts a ha).1 (Nat.not_lt.mpr late)

theorem step (h : t.Since c t') (sound : t'.Sound) (e : Event) : t.Since c (t'.step e) := by
  have adv := sound.advances e
  have next_le : t.cache.next ≤ t'.cache.next := h.follows.next_le
  constructor
  · exact h.follows.trans adv.cache.follows
  · intro p hp late
    rcases adv.waiting p hp with hp | ⟨⟨-, new | ⟨s, hs, number, mapped, running⟩⟩, -⟩
    · exact h.waiting p hp late
    · exact Nat.le_trans next_le new
    · rw [← number]
      rcases h.follows.of_invalidate hs mapped with new | ⟨-, -, -, x, -, -, completed⟩
      · exact new
      · -- a slot that was left in the map has an outcome, and nobody joins it
        simp [Slot.completed?, running] at completed
  · intro a ha late
    rcases adv.receipts a ha with
      ha | ⟨⟨-, s, hs, number, mapped, x, completed, ho⟩, -⟩ | ⟨waits, -⟩
    · exact h.receipts a ha late
    · rcases h.follows.of_invalidate hs mapped with new | ⟨u, hu, number', y, hy, apart, completed'⟩
      · exact .inl (number ▸ new)
      · cases completed.symm.trans completed'
        exact .inr ⟨u, hu, number'.trans number, x, hy, apart, ho⟩
    · exact .inl (h.waiting _ waits late)

theorem run (h : t.Since c t') (sound : t'.Sound) (events : List Event) :
    t.Since c (t'.run events) := by
  induction events generalizing t' with
  | nil => exact h
  | cons e events ih => exact ih (h.step sound e) (sound.step e)

end Since

namespace Current

variable {a : Receipt} {s : Slot} {x : CachedResolution}

/-- Nothing that is current comes out of a run that was under way. -/
theorem slot_ne (h : t.Current c a) (sound : t.cache.Sound) (hs : s ∈ t.cache.slots)
    (running : s.outcome = none) : a.slot ≠ s.number := by
  intro number
  rcases h with new | ⟨u, hu, number', x, completed, -⟩
  · have old := sound.numbered s hs
    omega
  · rw [sound.eq_of_number hu hs (number'.trans number), Slot.completed?, running] at completed
    cases completed

/-- Nothing that is current and depends on the changed coordinate was there before. -/
theorem next_le_slot (h : t.Current c a) (ho : a.outcome = .ok x) (depends : x.dependsOn c = true) :
    t.cache.next ≤ a.slot := by
  rcases h with new | ⟨-, -, -, y, -, apart, ho'⟩
  · exact new
  · cases ho.symm.trans ho'
    simp [depends] at apart

/-- Nothing that is current is a resolution that an earlier cache had and that depends on the
changed coordinate. -/
theorem outcome_ne (h : t.Current c a) (signed : ∀ x, a.outcome = .ok x → x.number = a.slot)
    {m : Cache} (sound : m.Sound) (follows : m.Follows t.cache) (hs : s ∈ m.slots)
    (completed : s.completed? = some x) (depends : x.dependsOn c = true) : a.outcome ≠ .ok x := by
  intro ho
  have number : s.number = a.slot := by
    rw [← signed x ho, (sound.signed s hs x completed).1]
  have old := sound.numbered s hs
  have next_le := follows.next_le
  have new := h.next_le_slot ho depends
  omega

end Current

/-- A resolution that does not depend on the changed coordinate is still there later on. -/
theorem Sound.get?_after (h : t.Sound) {k : RootKey} {x : CachedResolution} {later : List Event}
    (hx : t.cache.get? k = some x) (apart : x.dependsOn c = false)
    (kept : ∀ e ∈ later, ¬ e.Evicts x) :
    ((t.step (.invalidate c)).run later).cache.get? k = some x := by
  have stays : (t.step (.invalidate c)).cache.get? k = some x :=
    (h.advances (.invalidate c)).cache.kept k x hx (by simp [Event.Evicts, apart])
  exact (h.step (.invalidate c)).get?_run stays kept

/-- A call that comes after an invalidation gets what is current. It never gets what a run gives
that was under way then, nor a resolution that was complete at some time before and depends on the
changed coordinate. A resolution that does not depend on it stays in the map as long as nothing
else takes it out, and the next call for its key gets it and starts no run. -/
theorem current_after_invalidate (before later : List Event) (c : Coordinate) :
    let t := idle.run before
    let t' := (t.step (.invalidate c)).run later
    (∀ a ∈ t'.receipts, t.calls ≤ a.call →
      t.Current c a ∧
      (∀ s ∈ t.cache.slots, s.outcome = none → a.slot ≠ s.number) ∧
      ∀ earlier, earlier <+: before → ∀ s ∈ (idle.run earlier).cache.slots,
        ∀ x, s.completed? = some x → x.dependsOn c = true → a.outcome ≠ .ok x) ∧
    ∀ k x, t.cache.get? k = some x → x.dependsOn c = false → (∀ e ∈ later, ¬ e.Evicts x) →
      t'.cache.get? k = some x ∧
      ∀ roots, RootKey.ofRoots roots = k → t'.step (.call roots) = { t' with
        cache := { t'.cache with hits := t'.cache.hits + 1 }
        calls := t'.calls + 1
        receipts := t'.receipts ++ [⟨t'.calls, x.number, .ok x⟩] } := by
  intro t t'
  have sound : t.Sound := sound_idle.run before
  have since : t.Since c t' := (Since.invalidate sound c).run (sound.step _) later
  have sound' : t'.Sound := (sound.step _).run later
  refine ⟨?_, ?_⟩
  · intro a ha late
    have current := since.receipts a ha late
    refine ⟨current, fun s hs running => current.slot_ne sound.cache hs running, ?_⟩
    rintro earlier ⟨rest, rfl⟩ s hs x completed depends
    have early : (idle.run earlier).Sound := sound_idle.run earlier
    have follows : (idle.run earlier).cache.Follows t.cache := by
      simpa only [t, run_append] using early.follows_run rest
    exact current.outcome_ne (sound'.receipts a ha).2 early.cache follows hs completed depends
  · intro k x hx apart kept
    have found : t'.cache.get? k = some x := sound.get?_after hx apart kept
    refine ⟨found, ?_⟩
    rintro roots rfl
    exact enter_of_get? found

end Traffic

namespace Sample

open Traffic

def holding (cs : List Coordinate) : Resolution × Classpath :=
  (⟨cs.map fun c => ⟨c, 0, .jar, none⟩, []⟩, [])

/-- `app` needs `core`, and `lib` does not. Then two calls wait for a run of `core`. -/
def history : List Event :=
  [.call [app], .finish 0 (.ok (holding [app, core])), .deliver 0,
    .call [lib], .finish 1 (.ok (holding [lib])), .deliver 1, .call [core], .call [core]]

/-- `core` and `app` are asked for again. Meanwhile the first of the two calls for the old `core` is
given up, and the second one takes over its run and ends it. -/
def aftermath : List Event :=
  [.call [core], .call [app], .cancel 2, .finish 2 (.ok (holding [core])), .deliver 3,
    .finish 4 (.ok (holding [app])), .deliver 5]

def changing : Traffic := idle.run history

def settled : Traffic := (changing.step (.invalidate core)).run aftermath

def staleApp : CachedResolution := ⟨0, .ofRoots [app], (holding [app, core]).1, []⟩

def freshApp : CachedResolution := ⟨4, .ofRoots [app], (holding [app]).1, []⟩

def keptLib : CachedResolution := ⟨1, .ofRoots [lib], (holding [lib]).1, []⟩

end Sample

open Sample in
theorem Traffic.current_after_invalidate_sample :
    (⟨5, 4, .ok freshApp⟩ ∈ settled.receipts ∧ changing.calls ≤ 5 ∧
      (∃ s ∈ changing.cache.slots, s.outcome = none ∧ 4 ≠ s.number) ∧
      (∃ s ∈ changing.cache.slots, s.completed? = some staleApp ∧
        staleApp.dependsOn core = true ∧ staleApp ≠ freshApp)) ∧
    (changing.cache.get? (.ofRoots [lib]) = some keptLib ∧ keptLib.dependsOn core = false ∧
      settled.cache.get? (.ofRoots [lib]) = some keptLib ∧
      (settled.step (.call [lib])).receipts =
        settled.receipts ++ [⟨settled.calls, 1, .ok keptLib⟩]) := by
  obtain ⟨current, kept⟩ := current_after_invalidate history aftermath core
  have received : (⟨5, 4, .ok freshApp⟩ : Receipt) ∈ settled.receipts := by decide +kernel
  have late : changing.calls ≤ 5 := by decide +kernel
  obtain ⟨-, not_running, not_stale⟩ := current _ received late
  have held : changing.cache.get? (.ofRoots [lib]) = some keptLib := by decide +kernel
  have apart : keptLib.dependsOn core = false := by decide +kernel
  obtain ⟨found, called⟩ := kept _ _ held apart (by simp [aftermath, Event.Evicts])
  refine ⟨⟨received, late, ?_, ?_⟩, held, apart, found, ?_⟩
  · obtain ⟨s, hs, running⟩ : ∃ s ∈ changing.cache.slots, s.outcome = none := by decide +kernel
    exact ⟨s, hs, running, not_running s hs running⟩
  · obtain ⟨s, hs, completed⟩ : ∃ s ∈ changing.cache.slots, s.completed? = some staleApp := by
      decide +kernel
    have depends : staleApp.dependsOn core = true := by decide +kernel
    refine ⟨s, hs, completed, depends, fun same => ?_⟩
    exact not_stale history (List.prefix_refl _) s hs staleApp completed depends (same ▸ rfl)
  · exact congrArg Traffic.receipts (called [lib] rfl)

end Depot
