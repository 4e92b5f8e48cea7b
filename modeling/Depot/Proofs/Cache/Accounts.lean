import Mathlib.Algebra.GroupWithZero.Nat
import Depot.Proofs.Cache.Flight

/-!
# Accounts

What the counters of a cache tell. Each call that has returned is counted once: as a miss if it ended
a run of its own, also one that it took over, and as a hit if not. What invalidations have counted
adds up to the third counter, and each of them counts the keys that it takes out of the map, failed
ones apart. It leaves the resolutions that do not depend on the changed coordinate as they were.
-/

namespace Depot

theorem Slot.outdated_iff {s : Slot} {c : Coordinate} :
    s.outdated c = true ↔ s.outcome = none ∨ ∃ x, s.completed? = some x ∧ x.dependsOn c = true := by
  match ho : s.outcome with
  | none => simp [outdated, ho]
  | some (_, .ok x) => simp [outdated, completed?, ho]
  | some (_, .error _) => simp [outdated, completed?, ho]

namespace Cache

variable {m : Cache} {c : Coordinate} {k : RootKey} {s : Slot}

/-- A key whose slot has no outcome yet, or a resolution that may have read a manifest. -/
def Concerned (m : Cache) (c : Coordinate) (k : RootKey) : Prop :=
  ∃ s, m.mapped? k = some s ∧
    (s.outcome = none ∨ ∃ x, s.completed? = some x ∧ x.dependsOn c = true)

/-- An invalidation counts the keys that it concerns. -/
theorem Sound.exists_concerned (hm : m.Sound) (c : Coordinate) :
    ∃ keys : List RootKey, keys.Nodup ∧ (∀ k, k ∈ keys ↔ m.Concerned c k) ∧
      (m.invalidate c).1 = keys.length := by
  let gone := m.slots.filter fun s => s.mapped && s.outdated c
  have mem : ∀ {s}, s ∈ gone ↔ s ∈ m.slots ∧ s.mapped = true ∧ s.outdated c = true := by
    simp [gone]
  refine ⟨gone.map Slot.key, ?_, fun k => ?_, ?_⟩
  · have distinct : gone.Nodup := hm.distinct.of_map.filter _
    refine distinct.map_on fun s hs u hu key => ?_
    obtain ⟨hs, mapped, -⟩ := mem.mp hs
    obtain ⟨hu, mapped', -⟩ := mem.mp hu
    exact hm.eq_of_number hs hu (hm.single s hs u hu mapped mapped' key)
  · rw [List.mem_map]
    constructor
    · rintro ⟨s, hs, rfl⟩
      obtain ⟨hs, mapped, outdated⟩ := mem.mp hs
      exact ⟨s, hm.mapped?_key hs mapped, Slot.outdated_iff.mp outdated⟩
    · rintro ⟨s, found, outdated⟩
      obtain ⟨hs, mapped, key⟩ := mem_of_mapped? found
      exact ⟨s, mem.mpr ⟨hs, mapped, Slot.outdated_iff.mpr outdated⟩, key⟩
  · rw [List.length_map]
    exact List.countP_eq_length_filter

/-- What an invalidation leaves in the map are the resolutions that it does not concern. -/
theorem Sound.mapped?_invalidate (hm : m.Sound) :
    (m.invalidate c).2.mapped? k = some s ↔
      m.mapped? k = some s ∧ ∃ x, s.completed? = some x ∧ x.dependsOn c = false := by
  have succeeds : Cache.Succeeds (fun _ => False) m (m.invalidate c).2 := hm.invalidate nofun
  have sound : (m.invalidate c).2.Sound := succeeds.sound
  constructor
  · intro found
    obtain ⟨hs, mapped, rfl⟩ := mem_of_mapped? found
    obtain ⟨u, hu, rfl⟩ := List.mem_map.mp (List.mem_filter.mp hs).1
    obtain ⟨r, hr, number, ho, x, completed, apart⟩ := mem_invalidate hs mapped
    obtain rfl := hm.eq_of_number hr hu number
    dsimp only at mapped ⊢
    have stayed : r.mapped = true := by
      simp only [Bool.and_eq_true] at mapped
      exact mapped.1.1
    have same : { r with mapped := r.mapped && !r.outdated c && !r.failed } = r := by
      rw [mapped, ← stayed]
    rw [same]
    exact ⟨hm.mapped?_key hu stayed, x, completed, apart⟩
  · rintro ⟨found, x, completed, apart⟩
    obtain ⟨hs, mapped, rfl⟩ := mem_of_mapped? found
    obtain ⟨runner, ho⟩ := Slot.completed?_eq_some.mp completed
    have same : { s with mapped := s.mapped && !s.outdated c && !s.failed } = s := by
      simp only [mapped, Slot.outdated, Slot.failed, ho, apart, Bool.not_false, Bool.and_true]
      rw [← mapped, ← ho]
    have stays : s ∈ (m.invalidate c).2.slots :=
      List.mem_filter.mpr ⟨List.mem_map.mpr ⟨s, hs, same⟩, by simp [Slot.reachable, mapped]⟩
    exact sound.mapped?_key stays mapped

variable {number runner : Nat} {u : Slot}

/-- The end of a run gives the slot its outcome, and the others stay as they are. -/
theorem Sound.mem_finish (hm : m.Sound) (found : m.slot? number = some s)
    (first : s.callers.head? = some runner) (o : Outcome) :
    u ∈ (m.finish number o).slots ↔
      u = { s with outcome := some (runner, o) } ∨ u ∈ m.slots ∧ u.number ≠ number := by
  obtain ⟨hs, rfl⟩ := mem_of_slot? found
  obtain ⟨others, callers⟩ := List.head?_eq_some_iff.mp first
  unfold Cache.finish modify
  simp only [List.mem_map]
  constructor
  · rintro ⟨r, hr, rfl⟩
    by_cases here : r.number = s.number
    · obtain rfl := hm.eq_of_number hr hs here
      exact .inl (by simp [callers])
    · exact .inr (by simpa [here] using hr)
  · rintro (rfl | ⟨hu, other⟩)
    · exact ⟨s, hs, by simp [callers]⟩
    · exact ⟨u, hu, by simp [other]⟩

/-- Where nobody runs, no run ends. -/
theorem finish_of_deserted (h : ∀ s ∈ m.slots, s.number = number → s.callers = []) (o : Outcome) :
    m.finish number o = m := by
  have same : (m.finish number o).slots = m.slots := by
    refine (List.map_congr_left fun s hs => ?_).trans (List.map_id _)
    by_cases here : s.number = number
    · simp [h s hs here]
    · simp [here]
  exact congrArg (fun slots => { m with slots := slots }) same

end Cache

namespace Traffic

variable {t t' : Traffic} {e : Event} {events : List Event}

/-- What is noted of the events of a history, each in the state in which it happens. -/
def noted {α : Type} (note : Traffic → Event → Option α) (t : Traffic) : List Event → List α
  | [] => []
  | e :: events => (note t e).toList ++ noted note (t.step e) events

theorem noted_append {α : Type} (note : Traffic → Event → Option α) (t : Traffic)
    (events later : List Event) :
    t.noted note (events ++ later) = t.noted note events ++ (t.run events).noted note later := by
  induction events generalizing t with
  | nil => rfl
  | cons e events ih =>
    simp only [List.cons_append, noted, ih, List.append_assoc]
    rfl

/-- The call that ends its run, and the slot. -/
def ended? (t : Traffic) : Event → Option (Nat × Nat)
  | .finish slot _ => (t.cache.running? slot).map fun call => (call, slot)
  | _ => none

/-- What an invalidation answers. -/
def evicted? (t : Traffic) : Event → Option Nat
  | .invalidate c => some (t.cache.invalidate c).1
  | _ => none

/-- The calls that ended runs of their own, with the slots of these runs. -/
def ended (t : Traffic) (events : List Event) : List (Nat × Nat) := t.noted ended? events

/-- What the invalidations answered. -/
def evictions (t : Traffic) (events : List Event) : List Nat := t.noted evicted? events

namespace Move

theorem ended?_of_ne (unfinished : ∀ slot result, e ≠ .finish slot result) : t.ended? e = none := by
  cases e with
  | finish slot result => exact absurd rfl (unfinished slot result)
  | _ => rfl

/-- Which counter goes up when a call returns. Who ran is the one that the outcome remembers. -/
theorem counted (move : t.Move e t') :
    (t'.receipts = t.receipts ∧ t'.cache.hits = t.cache.hits ∧ t'.cache.misses = t.cache.misses) ∨
    ∃ a, t'.receipts = t.receipts ++ [a] ∧ (∀ slot result, e ≠ .finish slot result) ∧
      ((a.call = t.calls ∧ t'.cache.hits = t.cache.hits + 1 ∧ t'.cache.misses = t.cache.misses) ∨
        (a.call, a.slot) ∈ t.waiting ∧
          ∃ s ∈ t.cache.slots, s.number = a.slot ∧ ∃ runner, s.outcome = some (runner, a.outcome) ∧
            ((runner = a.call ∧ t'.cache.hits = t.cache.hits ∧
                t'.cache.misses = t.cache.misses + 1) ∨
              runner ≠ a.call ∧ t'.cache.hits = t.cache.hits + 1 ∧
                t'.cache.misses = t.cache.misses)) := by
  cases move with
  | hits found => exact .inr ⟨_, rfl, nofun, .inl ⟨rfl, rfl, rfl⟩⟩
  | @takes call slot runner s o waits found ended =>
    obtain ⟨hs, number⟩ := Cache.mem_of_slot? found
    refine .inr ⟨_, rfl, nofun, .inr ⟨mem_of_lookup waits, s, hs, number, runner, ended, ?_⟩⟩
    by_cases own : runner = call
    · exact .inl ⟨own, by simp [own, Cache.leave, Cache.collect, Cache.modify]⟩
    · exact .inr ⟨own, by simp [own, Cache.leave, Cache.collect, Cache.modify]⟩
  | _ => exact .inl ⟨rfl, rfl, rfl⟩

theorem invalidations (move : t.Move e t') :
    t'.cache.invalidations = t.cache.invalidations + (t.evicted? e).toList.sum := by
  cases move with
  | @takes call slot runner s o waits found ended =>
    show (t.cache.leave call slot (runner = call) o).invalidations = t.cache.invalidations
    simp only [Cache.leave, Cache.collect, Cache.modify]
    split <;> rfl
  | invalidates c => simp [evicted?, Cache.invalidate, Cache.collect]
  | _ => rfl

end Move

/-! ### Who ran -/

/-- Where nobody runs, nothing ends. -/
theorem step_of_idle (sound : t.Sound) {slot : Nat} (idle : t.cache.running? slot = none)
    (result : Except PackageError (Resolution × Classpath)) :
    t.step (.finish slot result) = t := by
  simp only [Traffic.step, settle]
  cases found : t.cache.slot? slot with
  | none => rfl
  | some s =>
    cases ho : s.outcome with
    | some o => simp only [ho]
    | none =>
      obtain ⟨hs, number⟩ := Cache.mem_of_slot? found
      simp only [Cache.running?, found, Option.bind_some, ho, Option.isSome_none,
        Bool.false_eq_true, if_false, List.head?_eq_none_iff] at idle
      simp only [ho]
      rw [Cache.finish_of_deserted fun u hu here => ?_]
      rw [sound.cache.eq_of_number hu hs (here.trans number.symm), idle]

/-- The outcome of each slot remembers the call that ended its run, and no other. -/
structure Ran (t : Traffic) (ended : List (Nat × Nat)) : Prop where
  early : ∀ p ∈ ended, p.1 < t.calls ∧ p.2 < t.cache.next
  remembered : ∀ p ∈ ended, ∀ s ∈ t.cache.slots, s.number = p.2 → ∃ o, s.outcome = some (p.1, o)
  listed : ∀ s ∈ t.cache.slots, ∀ runner o, s.outcome = some (runner, o) → (runner, s.number) ∈ ended

theorem ran_idle : idle.Ran [] := by constructor <;> simp [idle, Cache.empty]

namespace Ran

variable {ended : List (Nat × Nat)} (h : t.Ran ended) (sound : t.Sound)
include h sound

/-- Whatever happens but the end of a run, outcomes stay as they are. -/
theorem step_of_ne (move : t.Move e t') (follows : t.cache.Follows t'.cache)
    (unfinished : ∀ slot result, e ≠ .finish slot result) : t'.Ran ended := by
  have calls_le : t.calls ≤ t'.calls := move.calls_eq ▸ Nat.le_add_right _ _
  have origin : ∀ s' ∈ t'.cache.slots, (∃ s ∈ t.cache.slots, s.number = s'.number ∧
      s.outcome = s'.outcome) ∨ s'.outcome = none ∧ s'.number = t.cache.next := by
    intro s' hs'
    rcases move.slot sound hs' with ⟨s, hs, turns⟩ | ⟨roots, -, rfl⟩
    · rcases turns.outcome with same | ⟨-, result, -, rfl, -⟩
      · exact .inl ⟨s, hs, turns.number.symm, same.symm⟩
      · exact absurd rfl (unfinished _ result)
    · exact .inr ⟨rfl, rfl⟩
  refine ⟨fun p hp => ?_, fun p hp s' hs' number => ?_, fun s' hs' runner o ho => ?_⟩
  · exact (h.early p hp).imp (Nat.lt_of_lt_of_le · calls_le) (Nat.lt_of_lt_of_le · follows.next_le)
  · rcases origin s' hs' with ⟨s, hs, same, outcome⟩ | ⟨-, new⟩
    · exact outcome ▸ h.remembered p hp s hs (same.trans number)
    · have old := (h.early p hp).2
      omega
  · rcases origin s' hs' with ⟨s, hs, same, outcome⟩ | ⟨none, -⟩
    · exact same ▸ h.listed s hs runner o (outcome.trans ho)
    · cases none.symm.trans ho

/-- A run ends, and the outcome remembers the call that has been running. -/
theorem step_finish (seated : t.Seated) (slot : Nat)
    (result : Except PackageError (Resolution × Classpath)) :
    (t.step (.finish slot result)).Ran (ended ++ (t.ended? (.finish slot result)).toList) := by
  cases runs : t.cache.running? slot with
  | none => simpa [ended?, runs, step_of_idle sound runs] using h
  | some runner =>
    obtain ⟨s, hs, number, running, first⟩ := (running?_eq_some sound seated).mp runs
    have waits := waits_of_head? first
    have found := (slot?_eq_some sound).mpr ⟨hs, number⟩
    rw [← number, ← seated.seats.callers s hs] at first
    simp only [Traffic.step, settle, found, running, ended?, runs, Option.map_some,
      Option.toList_some]
    have mem := fun u => sound.cache.mem_finish (u := u) found first
      (Cache.outcomeOf slot s.key result)
    refine ⟨fun p hp => ?_, fun p hp u hu here => ?_, fun u hu runner' o ho => ?_⟩
    · rcases List.mem_append.mp hp with hp | hp
      · exact h.early p hp
      · rw [List.mem_singleton.mp hp]
        exact ⟨sound.waiting _ waits, number ▸ sound.cache.numbered s hs⟩
    · rcases (mem u).mp hu with rfl | ⟨hu, other⟩ <;> rcases List.mem_append.mp hp with hp | hp
      · obtain ⟨o, remembered⟩ := h.remembered p hp s hs here
        cases running.symm.trans remembered
      · rw [List.mem_singleton.mp hp]
        exact ⟨_, rfl⟩
      · exact h.remembered p hp u hu here
      · rw [List.mem_singleton.mp hp] at here
        exact absurd here other
    · rcases (mem u).mp hu with rfl | ⟨hu, -⟩
      · cases ho
        exact List.mem_append_right _ (number ▸ List.mem_cons_self)
      · exact List.mem_append_left _ (h.listed u hu runner' o ho)

end Ran

/-! ### The balance -/

/-- The call that ends its run has not returned yet. -/
theorem not_ended (sound : t.Sound) (seated : t.Seated) {a : Receipt} (ha : a ∈ t.receipts) :
    (a.call, a.slot) ∉ (t.ended? e).toList := by
  intro new
  cases e with
  | finish slot result =>
    simp only [ended?, Option.mem_toList, Option.map_eq_some_iff] at new
    obtain ⟨call, runs, same⟩ := new
    obtain ⟨-, -, -, -, first⟩ := (running?_eq_some sound seated).mp runs
    exact seated.unserved _ (waits_of_head? first) a ha (congrArg Prod.fst same).symm
  | _ => cases new

/-- What holds after every history. -/
structure Balanced (events : List Event) (t : Traffic) : Prop where
  ran : t.Ran (idle.ended events)
  distinct : (t.receipts.map Receipt.call).Nodup
  total : t.cache.hits + t.cache.misses = t.receipts.length
  misses : t.cache.misses = t.receipts.countP fun a => (a.call, a.slot) ∈ idle.ended events
  invalidations : t.cache.invalidations = (idle.evictions events).sum

theorem balanced_idle : Balanced [] idle := by
  refine ⟨ran_idle, ?_, ?_, ?_, ?_⟩ <;> simp [idle, Cache.empty, evictions, noted]

namespace Balanced

variable (h : Balanced events t) (sound : t.Sound) (seated : t.Seated) (move : t.Move e t')

include h sound seated move in
theorem distinct_step : (t'.receipts.map Receipt.call).Nodup := by
  rcases move.counted with ⟨same, -⟩ | ⟨a, grown, -, returns⟩
  · exact same ▸ h.distinct
  rw [grown, List.map_append]
  refine h.distinct.append (List.nodup_singleton _) ?_
  intro call hc hc'
  obtain ⟨b, hb, rfl⟩ := List.mem_map.mp hc
  obtain same : b.call = a.call := List.mem_singleton.mp hc'
  rcases returns with ⟨last, -⟩ | ⟨waits, -⟩
  · exact absurd (sound.receipts b hb).1 (by omega)
  · exact seated.unserved _ waits b hb same

include h move in
theorem total_step : t'.cache.hits + t'.cache.misses = t'.receipts.length := by
  have total := h.total
  rcases move.counted with ⟨same, hits, misses⟩ | ⟨a, grown, -, ⟨-, hits, misses⟩ |
    ⟨-, s, -, -, runner, -, ⟨-, hits, misses⟩ | ⟨-, hits, misses⟩⟩⟩
  · rw [same, hits, misses, total]
  all_goals
    rw [grown, hits, misses, List.length_append, List.length_singleton]
    omega

include h move in
/-- A call that returns counts as a miss if it has ended a run before. -/
theorem misses_returned :
    t'.cache.misses = t'.receipts.countP fun a => (a.call, a.slot) ∈ idle.ended events := by
  rcases move.counted with ⟨same, -, misses⟩ | ⟨a, grown, -, returns⟩
  · rw [same, misses, h.misses]
  rw [grown, List.countP_append, ← h.misses]
  rcases returns with ⟨last, -, misses⟩ | ⟨waits, s, hs, number, runner, ho,
    ⟨rfl, -, misses⟩ | ⟨other, -, misses⟩⟩
  · have absent : (a.call, a.slot) ∉ idle.ended events := fun listed => by
      have early := (h.ran.early _ listed).1
      omega
    simp [misses, absent]
  · have listed : (a.call, a.slot) ∈ idle.ended events := number ▸ h.ran.listed s hs _ _ ho
    simp [misses, listed]
  · have absent : (a.call, a.slot) ∉ idle.ended events := fun listed => by
      obtain ⟨o, ho'⟩ := h.ran.remembered _ listed s hs number
      cases ho.symm.trans ho'
      exact other rfl
    simp [misses, absent]

include h sound seated move in
theorem misses_step : t'.cache.misses = t'.receipts.countP fun a =>
    (a.call, a.slot) ∈ idle.ended events ++ (t.ended? e).toList := by
  rw [h.misses_returned move]
  by_cases finishes : ∃ slot result, e = .finish slot result
  · -- nobody returns when a run ends
    have same : t'.receipts = t.receipts := by
      rcases move.counted with ⟨same, -⟩ | ⟨-, -, other, -⟩
      · exact same
      · obtain ⟨slot, result, rfl⟩ := finishes
        exact absurd rfl (other slot result)
    refine List.countP_congr fun a ha => ?_
    simp [not_ended sound seated (same ▸ ha)]
  · push Not at finishes
    simp [Move.ended?_of_ne finishes]

end Balanced

theorem balanced (events : List Event) : Balanced events (idle.run events) := by
  induction events using List.reverseRecOn with
  | nil => exact balanced_idle
  | append_singleton events e ih =>
    have sound : (idle.run events).Sound := sound_idle.run events
    have seated : (idle.run events).Seated := seated_idle.run sound_idle events
    have move := (idle.run events).move_step e
    have ended : idle.ended (events ++ [e]) =
        idle.ended events ++ ((idle.run events).ended? e).toList := by
      simp only [Traffic.ended, noted_append, noted, List.append_nil]
    rw [run_append]
    refine ⟨?_, ih.distinct_step sound seated move, ih.total_step move, ?_, ?_⟩
    · rw [ended]
      by_cases finishes : ∃ slot result, e = .finish slot result
      · obtain ⟨slot, result, rfl⟩ := finishes
        exact ih.ran.step_finish sound seated slot result
      · push Not at finishes
        rw [Move.ended?_of_ne finishes, Option.toList_none, List.append_nil]
        exact ih.ran.step_of_ne sound move (sound.advances e).cache.follows finishes
    · rw [ended]
      exact ih.misses_step sound seated move
    · simp only [evictions, noted_append, noted, List.append_nil, List.sum_append]
      rw [← evictions, ← ih.invalidations]
      exact move.invalidations

/-- The counters after any history. Hits and misses together are the calls that have returned, each
of which has done so once; misses are those of them that have ended a run of their own. The third
counter is the sum of what invalidations have answered. An invalidation answers with the number of
keys whose slot has no outcome yet or a resolution that depends on the changed coordinate, and what
it leaves in the map are the other resolutions, each in the same slot as before. -/
theorem accounts_balance (events : List Event) :
    let t := idle.run events
    (t.receipts.map Receipt.call).Nodup ∧
    t.cache.hits + t.cache.misses = t.receipts.length ∧
    (t.cache.misses = t.receipts.countP fun a => (a.call, a.slot) ∈ idle.ended events) ∧
    t.cache.invalidations = (idle.evictions events).sum ∧
    ∀ c : Coordinate,
      (∃ keys : List RootKey, keys.Nodup ∧ (∀ k, k ∈ keys ↔ t.cache.Concerned c k) ∧
        (t.cache.invalidate c).1 = keys.length) ∧
      ∀ k s, (t.step (.invalidate c)).cache.mapped? k = some s ↔
        t.cache.mapped? k = some s ∧ ∃ x, s.completed? = some x ∧ x.dependsOn c = false := by
  intro t
  have sound : t.Sound := sound_idle.run events
  obtain ⟨-, distinct, total, misses, invalidations⟩ := balanced events
  refine ⟨distinct, total, misses, invalidations, fun c => ⟨?_, fun k s => ?_⟩⟩
  · exact sound.cache.exists_concerned c
  · exact sound.cache.mapped?_invalidate

end Traffic

end Depot
