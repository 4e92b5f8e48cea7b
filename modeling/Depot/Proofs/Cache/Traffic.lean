import Depot.Proofs.Cache.Steps

/-!
# Traffic

Calls come to a cache, wait there, take outcomes with them or are given up; runs end, well or not;
manifests change, and the cache is cleared. Each of these is one event, and the events come in any
order. A call that comes goes on until it has got something or has to wait. Who runs is the business
of the slot: a run that ends is the run of whoever has it by then.

What one event can do is said once, in `Advances`. All that holds of every history follows from it.
-/

namespace Depot

/-- What a call went away with, and the slot that it is the outcome of. -/
structure Receipt where
  call : Nat
  slot : Nat
  outcome : Outcome
  deriving DecidableEq, Repr

/-- A cache and its calls: how many have come, which of them wait and on which slot, and what the
others got. -/
structure Traffic where
  cache : Cache
  calls : Nat
  waiting : List (Nat × Nat)
  receipts : List Receipt

namespace Traffic

inductive Event where
  | call (roots : List Coordinate)
  | finish (slot : Nat) (result : Except PackageError (Resolution × Classpath))
  | deliver (call : Nat)
  | cancel (call : Nat)
  | invalidate (c : Coordinate)
  | clear

/-- Whether an event takes a resolution out of the map. -/
def Event.Evicts (x : CachedResolution) : Event → Prop
  | .invalidate c => x.dependsOn c = true
  | .clear => True
  | _ => False

def idle : Traffic := ⟨.empty, 0, [], []⟩

/-- The next call comes. -/
def enter (k : RootKey) (t : Traffic) : Traffic :=
  match t.cache.start t.calls k with
  | (.hit x, cache) =>
    { t with cache, calls := t.calls + 1, receipts := t.receipts ++ [⟨t.calls, x.number, .ok x⟩] }
  | (.joined slot _, cache) =>
    { t with cache, calls := t.calls + 1, waiting := t.waiting ++ [(t.calls, slot)] }

/-- The run of a slot ends. A slot has one outcome only. -/
def settle (slot : Nat) (result : Except PackageError (Resolution × Classpath)) (t : Traffic) :
    Traffic :=
  match t.cache.slot? slot with
  | none => t
  | some s =>
    match s.outcome with
    | some _ => t
    | none => { t with cache := t.cache.finish slot (Cache.outcomeOf slot s.key result) }

def waitingBut (call : Nat) (t : Traffic) : List (Nat × Nat) :=
  t.waiting.filter fun p => p.1 ≠ call

/-- A call that waits gets the outcome of its slot, if there is one. -/
def take (call : Nat) (t : Traffic) : Traffic :=
  match t.waiting.lookup call with
  | none => t
  | some slot =>
    match t.cache.deliver call slot with
    | none => t
    | some (o, cache) =>
      { t with cache, waiting := t.waitingBut call, receipts := t.receipts ++ [⟨call, slot, o⟩] }

/-- A call that waits is given up. -/
def giveUp (call : Nat) (t : Traffic) : Traffic :=
  match t.waiting.lookup call with
  | none => t
  | some slot => { t with cache := t.cache.cancel call slot, waiting := t.waitingBut call }

def step (t : Traffic) : Event → Traffic
  | .call roots => t.enter (.ofRoots roots)
  | .finish slot result => t.settle slot result
  | .deliver call => t.take call
  | .cancel call => t.giveUp call
  | .invalidate c => { t with cache := (t.cache.invalidate c).2 }
  | .clear => { t with cache := t.cache.clear }

def run (t : Traffic) (events : List Event) : Traffic := events.foldl step t

theorem run_append (t : Traffic) (events later : List Event) :
    t.run (events ++ later) = (t.run events).run later := List.foldl_append

/-- The next call may wait on a slot in the map that has no outcome, or on a new one. -/
def Joins (t : Traffic) (p : Nat × Nat) : Prop :=
  p.1 = t.calls ∧ (t.cache.next ≤ p.2 ∨
    ∃ s ∈ t.cache.slots, s.number = p.2 ∧ s.mapped = true ∧ s.outcome = none)

/-- The next call may get a resolution that is in the map. -/
def Hits (t : Traffic) (a : Receipt) : Prop :=
  a.call = t.calls ∧ ∃ s ∈ t.cache.slots, s.number = a.slot ∧ s.mapped = true ∧
    ∃ x, s.completed? = some x ∧ a.outcome = .ok x

/-- A call that waits may get the outcome of its slot. -/
def Takes (t : Traffic) (a : Receipt) : Prop :=
  (a.call, a.slot) ∈ t.waiting ∧ ∃ s ∈ t.cache.slots, s.number = a.slot ∧
    ∃ runner, s.outcome = some (runner, a.outcome)

/-- What one event can do. -/
structure Advances (keep : CachedResolution → Prop) (t t' : Traffic) : Prop where
  cache : Cache.Succeeds keep t.cache t'.cache
  calls_le : t.calls ≤ t'.calls
  waiting : ∀ p ∈ t'.waiting, p ∈ t.waiting ∨ (t.Joins p ∧ p.1 < t'.calls)
  receipts : ∀ a ∈ t'.receipts, a ∈ t.receipts ∨ (t.Hits a ∧ a.call < t'.calls) ∨ t.Takes a

/-- Only calls that have come wait or have got something, and a resolution is from the slot that
its number tells. -/
structure Sound (t : Traffic) : Prop where
  cache : t.cache.Sound
  waiting : ∀ p ∈ t.waiting, p.1 < t.calls
  receipts : ∀ a ∈ t.receipts, a.call < t.calls ∧ ∀ x, a.outcome = .ok x → x.number = a.slot

theorem sound_idle : idle.Sound := ⟨Cache.sound_empty, by simp [idle], by simp [idle]⟩

variable {t t' : Traffic} {keep : CachedResolution → Prop} {call : Nat}

theorem mem_of_mem_waitingBut {p : Nat × Nat} (hp : p ∈ t.waitingBut call) : p ∈ t.waiting :=
  (List.mem_filter.mp hp).1

theorem mem_of_lookup {slot : Nat} (h : t.waiting.lookup call = some slot) :
    (call, slot) ∈ t.waiting := by
  obtain ⟨earlier, later, split, -⟩ := List.lookup_eq_some_iff.mp h
  rw [split]
  exact List.mem_append_right earlier List.mem_cons_self

/-- An event that concerns the cache only. -/
theorem Advances.with_cache {m : Cache} (h : Cache.Succeeds keep t.cache m) :
    Advances keep t { t with cache := m } :=
  ⟨h, Nat.le_refl _, fun _ hp => .inl hp, fun _ ha => .inl ha⟩

namespace Sound

theorem enter (h : t.Sound) (k : RootKey) : Advances keep t (t.enter k) := by
  have started : Cache.Succeeds keep t.cache (t.cache.start t.calls k).2 := h.cache.start t.calls k
  unfold Traffic.enter
  split
  · rename_i x cache hc
    rw [hc] at started
    refine ⟨started, Nat.le_succ _, fun _ hp => .inl hp, ?_⟩
    intro a ha
    rcases List.mem_append.mp ha with ha | ha
    · exact .inl ha
    · rw [List.mem_singleton.mp ha]
      obtain ⟨s, hs, completed⟩ := Cache.mapped?_of_hit hc
      obtain ⟨hs, mapped, -⟩ := Cache.mem_of_mapped? hs
      have number := (h.cache.signed s hs x completed).1.symm
      exact .inr (.inl ⟨⟨rfl, s, hs, number, mapped, x, completed, rfl⟩, Nat.lt_succ_self _⟩)
  · rename_i slot _ cache hc
    rw [hc] at started
    refine ⟨started, Nat.le_succ _, ?_, fun _ ha => .inl ha⟩
    intro p hp
    rcases List.mem_append.mp hp with hp | hp
    · exact .inl hp
    · rw [List.mem_singleton.mp hp]
      refine .inr ⟨⟨rfl, ?_⟩, Nat.lt_succ_self _⟩
      rcases Cache.mapped?_of_joined hc with new | ⟨s, hs, running, number⟩
      · exact .inl (Nat.le_of_eq new)
      · obtain ⟨hs, mapped, -⟩ := Cache.mem_of_mapped? hs
        exact .inr ⟨s, hs, number, mapped, running⟩

theorem settle (h : t.Sound) (slot : Nat)
    (result : Except PackageError (Resolution × Classpath)) :
    Advances keep t (t.settle slot result) := by
  unfold Traffic.settle
  split
  · exact Advances.with_cache (.refl h.cache)
  · rename_i s hs
    split
    · exact Advances.with_cache (.refl h.cache)
    · rename_i running
      exact Advances.with_cache (h.cache.finish hs running result)

theorem take (h : t.Sound) (call : Nat) : Advances keep t (t.take call) := by
  unfold Traffic.take
  split
  · exact Advances.with_cache (.refl h.cache)
  · rename_i slot waits
    split
    · exact Advances.with_cache (.refl h.cache)
    · rename_i o cache hc
      obtain ⟨s, runner, hs, ho, rfl⟩ := Cache.deliver_eq_some hc
      refine ⟨h.cache.leave hs ho _ _, Nat.le_refl _, ?_, ?_⟩
      · exact fun p hp => .inl (mem_of_mem_waitingBut hp)
      intro a ha
      rcases List.mem_append.mp ha with ha | ha
      · exact .inl ha
      · rw [List.mem_singleton.mp ha]
        obtain ⟨hs, number⟩ := Cache.mem_of_slot? hs
        exact .inr (.inr ⟨mem_of_lookup waits, s, hs, number, runner, ho⟩)

theorem giveUp (h : t.Sound) (call : Nat) : Advances keep t (t.giveUp call) := by
  unfold Traffic.giveUp
  split
  · exact Advances.with_cache (.refl h.cache)
  · rename_i slot waits
    exact ⟨h.cache.cancel call slot, Nat.le_refl _, fun p hp => .inl (mem_of_mem_waitingBut hp),
      fun _ ha => .inl ha⟩

/-- Whatever happens, a resolution stays in the map unless the event takes it out. -/
theorem advances (h : t.Sound) (e : Event) : Advances (fun x => ¬ e.Evicts x) t (t.step e) := by
  cases e with
  | call roots => exact h.enter (.ofRoots roots)
  | finish slot result => exact h.settle slot result
  | deliver call => exact h.take call
  | cancel call => exact h.giveUp call
  | invalidate c =>
    exact Advances.with_cache (h.cache.invalidate fun x hx => by simpa [Event.Evicts] using hx)
  | clear => exact Advances.with_cache (h.cache.clear fun x hx => hx trivial)

theorem step (h : t.Sound) (e : Event) : (t.step e).Sound := by
  have adv := h.advances e
  constructor
  · exact adv.cache.sound
  · intro p hp
    rcases adv.waiting p hp with hp | ⟨-, lt⟩
    · exact Nat.lt_of_lt_of_le (h.waiting p hp) adv.calls_le
    · exact lt
  · intro a ha
    rcases adv.receipts a ha with ha | ⟨⟨-, s, hs, number, -, x, completed, ho⟩, lt⟩ |
      ⟨waits, s, hs, number, runner, ho⟩
    · obtain ⟨lt, signed⟩ := h.receipts a ha
      exact ⟨Nat.lt_of_lt_of_le lt adv.calls_le, signed⟩
    · refine ⟨lt, fun y hy => ?_⟩
      cases ho.symm.trans hy
      rw [← number]
      exact (h.cache.signed s hs x completed).1
    · refine ⟨Nat.lt_of_lt_of_le (h.waiting _ waits) adv.calls_le, fun y hy => ?_⟩
      rw [hy] at ho
      rw [← number]
      exact (h.cache.signed s hs y (Slot.completed?_eq_some.mpr ⟨runner, ho⟩)).1

theorem run (h : t.Sound) (events : List Event) : (t.run events).Sound := by
  induction events generalizing t with
  | nil => exact h
  | cons e events ih => exact ih (h.step e)

/-- Later caches follow earlier ones. -/
theorem follows_run (h : t.Sound) (events : List Event) : t.cache.Follows (t.run events).cache := by
  induction events generalizing t with
  | nil => exact .refl t.cache
  | cons e events ih => exact (h.advances e).cache.follows.trans (ih (h.step e))

/-- A resolution stays in the map as long as no event takes it out. -/
theorem get?_run (h : t.Sound) {k : RootKey} {x : CachedResolution} {events : List Event}
    (hx : t.cache.get? k = some x) (kept : ∀ e ∈ events, ¬ e.Evicts x) :
    (t.run events).cache.get? k = some x := by
  induction events generalizing t with
  | nil => exact hx
  | cons e events ih =>
    have stays := (h.advances e).cache.kept k x hx (kept e List.mem_cons_self)
    exact ih (h.step e) stays fun e' he => kept e' (List.mem_cons_of_mem e he)

end Sound

/-- A call for a key whose resolution is in the map gets that one, and nothing else changes. -/
theorem enter_of_get? {k : RootKey} {x : CachedResolution} (h : t.cache.get? k = some x) :
    t.enter k = { t with
      cache := { t.cache with hits := t.cache.hits + 1 }
      calls := t.calls + 1
      receipts := t.receipts ++ [⟨t.calls, x.number, .ok x⟩] } := by
  obtain ⟨s, hs, completed⟩ := Cache.get?_eq_some_iff.mp h
  obtain ⟨runner, ho⟩ := Slot.completed?_eq_some.mp completed
  simp only [enter, Cache.start, hs, ho]

end Traffic

end Depot
