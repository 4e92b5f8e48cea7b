import Depot.Proofs.Cache.Flight

/-!
# Failures are not kept

A failure goes to the calls that waited when its run ended, and to no call that comes later. The
first of them that takes it along takes the slot out of the map, and whatever is in the map for the
key from then on was opened since. The others take the same slot out again when they leave, however
late, and no other slot leaves the map for that.
-/

namespace Depot

namespace Cache

variable {m : Cache} {s u : Slot} {k : RootKey} {number call : Nat}

/-- A call that meets a failed slot starts again without it, and then there is nothing to meet. -/
theorem Sound.start_of_failed (hm : m.Sound) (hs : m.mapped? k = some s) (failed : s.failed = true)
    (call : Nat) :
    m.start call k = (m.unmap s.number).start call k ∧ (m.unmap s.number).mapped? k = none := by
  have gone := hm.mapped?_unmap hs
  refine ⟨?_, gone⟩
  match ho : s.outcome with
  | none => simp [Slot.failed, ho] at failed
  | some (_, .ok x) => simp [Slot.failed, ho] at failed
  | some (_, .error e) => simp only [Cache.start, hs, ho, gone]

/-- What is done to one slot leaves the others where they are. -/
theorem mapped?_modify_of_ne {g : Slot → Slot} (found : m.mapped? k = some u)
    (other : u.number ≠ number) (key_eq : ∀ s, (g s).key = s.key)
    (mapped : ∀ s, (g s).mapped = true → s.mapped = true) :
    (m.modify number g).mapped? k = some u := by
  unfold mapped? at found ⊢
  obtain ⟨here, before, after, split, first⟩ := List.find?_eq_some_iff_append.mp found
  simp only [modify, List.find?_map]
  rw [List.find?_eq_some_iff_append.mpr ⟨?_, before, after, split, fun r hr => ?_⟩]
  · simp [other]
  · simpa [other] using here
  · have absent := first r hr
    by_cases at_number : r.number = number
    · cases hg : (g r).mapped
      · simp [at_number, hg]
      · simpa [at_number, hg, key_eq, mapped r hg] using absent
    · simpa [at_number] using absent

/-- To evict a slot, at whatever time, leaves the others in the map. -/
theorem mapped?_unmap_of_ne (found : m.mapped? k = some u) (other : u.number ≠ number) :
    (m.unmap number).mapped? k = some u := by
  rw [unmap, mapped?_collect]
  exact mapped?_modify_of_ne found other (fun _ => rfl) (by simp)

/-- A call that leaves its slot takes no other slot out of the map. -/
theorem mapped?_leave_of_ne (found : m.mapped? k = some u) (other : u.number ≠ number)
    (call : Nat) (ran : Bool) (o : Outcome) :
    (m.leave call number ran o).mapped? k = some u := by
  rw [mapped?, slots_leave, ← mapped?, mapped?_collect]
  refine mapped?_modify_of_ne found other (fun _ => rfl) fun s hs => ?_
  exact (Bool.and_eq_true _ _ ▸ hs).1

theorem running?_create (numbered : ∀ s ∈ m.slots, s.number < m.next) (call : Nat) (k : RootKey) :
    (m.create call k).2.running? m.next = some call := by
  have absent : m.slots.find? (fun s => decide (s.number = m.next)) = none := by
    rw [List.find?_eq_none]
    intro s hs
    have old := numbered s hs
    simp only [decide_eq_true_eq]
    omega
  simp [running?, slot?, create, absent]

/-- What is in the map for a key is the newest slot of that key. -/
def Newest (m : Cache) : Prop :=
  ∀ s ∈ m.slots, ∀ u ∈ m.slots, u.mapped = true → s.key = u.key → s.number ≤ u.number

end Cache

namespace Traffic

variable {t t' : Traffic} {e : Event} {events : List Event}

/-! ### Who gets a failure -/

/-- The run of a slot has not ended: it may still be opened, or it has no outcome. -/
def Open (t : Traffic) (slot : Nat) : Prop :=
  t.cache.next ≤ slot ∨ ∃ s ∈ t.cache.slots, s.number = slot ∧ s.outcome = none

/-- What holds from any time on: who comes later waits on slots that were open, and gets failures
from no others. -/
structure Later (t t' : Traffic) : Prop where
  follows : t.cache.Follows t'.cache
  waiting : ∀ p ∈ t'.waiting, t.calls ≤ p.1 → t.Open p.2
  receipts : ∀ a ∈ t'.receipts, t.calls ≤ a.call → ∀ error, a.outcome = .error error → t.Open a.slot

theorem Open.ne_of_ended {slot : Nat} (h : t.Open slot) (sound : t.Sound) {s : Slot}
    (hs : s ∈ t.cache.slots) (ended : s.outcome ≠ none) : slot ≠ s.number := by
  rintro rfl
  rcases h with new | ⟨u, hu, number, running⟩
  · have old := sound.cache.numbered s hs
    omega
  · rw [sound.cache.eq_of_number hu hs number] at running
    exact ended running

namespace Later

theorem refl (sound : t.Sound) : t.Later t := by
  refine ⟨.refl t.cache, fun p hp late => ?_, fun a ha late => ?_⟩
  · exact absurd (sound.waiting p hp) (Nat.not_lt.mpr late)
  · exact absurd (sound.receipts a ha).1 (Nat.not_lt.mpr late)

theorem step (h : t.Later t') (sound : t'.Sound) (e : Event) : t.Later (t'.step e) := by
  have adv := sound.advances e
  refine ⟨h.follows.trans adv.cache.follows, fun p hp late => ?_, fun a ha late error failed => ?_⟩
  · rcases adv.waiting p hp with hp | ⟨⟨-, new | ⟨s, hs, number, -, running⟩⟩, -⟩
    · exact h.waiting p hp late
    · exact .inl (Nat.le_trans h.follows.next_le new)
    · -- a slot that has no outcome now had none then
      rcases h.follows.origin s hs with ⟨r, hr, becomes⟩ | new
      · refine .inr ⟨r, hr, becomes.number.symm.trans number, ?_⟩
        cases ho : r.outcome with
        | none => rfl
        | some o => cases (becomes.outcome o ho).symm.trans running
      · exact .inl (number ▸ new)
  · rcases adv.receipts a ha with ha | ⟨⟨-, s, -, -, -, x, -, found⟩, -⟩ | ⟨waits, -⟩
    · exact h.receipts a ha late error failed
    · cases found.symm.trans failed
    · exact h.waiting _ waits late

theorem run (h : t.Later t') (sound : t'.Sound) (events : List Event) :
    t.Later (t'.run events) := by
  induction events generalizing t' with
  | nil => exact h
  | cons e events ih => exact ih (h.step sound e) (sound.step e)

end Later

/-! ### What is left of a failed run -/

/-- A new slot is in the map, and then no other slot of its key is. -/
theorem Move.newest (move : t.Move e t') (sound : t.Sound) (sound' : t'.Sound)
    (follows : t.cache.Follows t'.cache) (h : t.cache.Newest) : t'.cache.Newest := by
  intro s' hs' u' hu' mapped key
  rcases move.slot sound hs' with ⟨s, hs, turns⟩ | ⟨roots, -, rfl⟩
  · rw [turns.number]
    rcases follows.origin u' hu' with ⟨u, hu, becomes⟩ | new
    · rw [becomes.number]
      exact h s hs u hu (becomes.mapped mapped) (by rw [← turns.key, key, becomes.key])
    · exact Nat.le_trans (Nat.le_of_lt (sound.cache.numbered s hs)) new
  · exact Nat.le_of_eq (sound'.cache.single _ hs' u' hu' rfl mapped key)

theorem newest_run (events : List Event) : (idle.run events).cache.Newest := by
  induction events using List.reverseRecOn with
  | nil =>
    intro s hs
    cases hs
  | append_singleton events e ih =>
    have sound : (idle.run events).Sound := sound_idle.run events
    rw [run_append]
    exact (move_step _ e).newest sound (sound.step e) (sound.advances e).cache.follows ih

/-- Who takes a failure along takes the slot out of the map. -/
theorem unmapped_of_due {call slot : Nat} {error : PackageError} (sound : t.Sound)
    (seated : t.Seated) (due : Move.Due t call slot (.error error)) :
    ∀ s ∈ (t.step (.deliver call)).cache.slots, s.number = slot → s.mapped = false := by
  obtain ⟨waits, r, hr, number, runner, ended⟩ := due
  have found := (slot?_eq_some sound).mpr ⟨hr, number⟩
  intro s hs hn
  simp only [Traffic.step, take, seated.lookup waits, Cache.deliver, found, Option.bind_some,
    ended] at hs
  rw [Cache.slots_leave] at hs
  obtain ⟨u, -, rfl⟩ := List.mem_map.mp (List.mem_filter.mp hs).1
  split
  · exact Bool.and_false _
  · rename_i other
    rw [if_neg other] at hn
    exact absurd hn other

/-- What is left of a run whose failure a call has taken along: its slot is out of the map, and
there is nothing for its key in the map but what was opened since. -/
structure Dropped (events : List Event) (t : Traffic) (call slot : Nat) : Prop where
  old : slot < t.cache.next
  unmapped : ∀ s ∈ t.cache.slots, s.number = slot → s.mapped = false
  since : ∃ k, Asks events call k ∧
    ∀ u ∈ t.cache.slots, u.mapped = true → u.key = k → slot < u.number

theorem Dropped.step {call slot : Nat} (h : Dropped events t call slot)
    (follows : t.cache.Follows t'.cache) (e : Event) : Dropped (events ++ [e]) t' call slot := by
  have kept : ∀ u' ∈ t'.cache.slots, u'.mapped = true →
      (∃ u ∈ t.cache.slots, u.mapped = true ∧ u'.number = u.number ∧ u'.key = u.key) ∨
        slot < u'.number := by
    intro u' hu' mapped
    rcases follows.origin u' hu' with ⟨u, hu, becomes⟩ | new
    · exact .inl ⟨u, hu, becomes.mapped mapped, becomes.number, becomes.key⟩
    · exact .inr (Nat.lt_of_lt_of_le h.old new)
  obtain ⟨k, asks, since⟩ := h.since
  refine ⟨Nat.lt_of_lt_of_le h.old follows.next_le, fun s' hs' number => ?_,
    k, asks.append [e], fun u' hu' mapped key => ?_⟩
  · refine Bool.eq_false_iff.mpr fun mapped => ?_
    rcases kept s' hs' mapped with ⟨s, hs, mapped, same, -⟩ | new
    · simp [h.unmapped s hs (same.symm.trans number)] at mapped
    · omega
  · rcases kept u' hu' mapped with ⟨u, hu, mapped, same, key'⟩ | new
    · exact same ▸ since u hu mapped (key'.symm.trans key)
    · exact new

theorem dropped_of_due {call slot : Nat} {error : PackageError} (sound : t.Sound)
    (seated : t.Seated) (chronicle : Chronicle events t) (newest : t.cache.Newest)
    (due : Move.Due t call slot (.error error)) :
    Dropped (events ++ [.deliver call]) (t.step (.deliver call)) call slot := by
  have follows := (sound.advances (.deliver call)).cache.follows
  have unmapped := unmapped_of_due sound seated due
  obtain ⟨waits, s, hs, number, -⟩ := due
  refine ⟨?_, unmapped, s.key, (chronicle.keyed _ waits s hs number).append _, ?_⟩
  · exact number ▸ Nat.lt_of_lt_of_le (sound.cache.numbered s hs) follows.next_le
  · intro u' hu' mapped key
    have other : u'.number ≠ slot := fun same => by simp [unmapped u' hu' same] at mapped
    rcases follows.origin u' hu' with ⟨u, hu, becomes⟩ | new
    · have le := newest s hs u hu (becomes.mapped mapped) (key.symm.trans becomes.key)
      have same := becomes.number
      omega
    · have old := sound.cache.numbered s hs
      omega

/-- A failure that was taken along has left nothing in the map. -/
theorem dropped_run (events : List Event) {a : Receipt} (ha : a ∈ (idle.run events).receipts)
    {error : PackageError} (failed : a.outcome = .error error) :
    Dropped events (idle.run events) a.call a.slot := by
  induction events using List.reverseRecOn with
  | nil => cases ha
  | append_singleton events e ih =>
    have sound : (idle.run events).Sound := sound_idle.run events
    have seated : (idle.run events).Seated := seated_idle.run sound_idle events
    rw [run_append] at ha ⊢
    have earlier : a ∈ (idle.run events).receipts →
        Dropped (events ++ [e]) ((idle.run events).run [e]) a.call a.slot :=
      fun ha => (ih ha).step (sound.advances e).cache.follows e
    rcases ((idle.run events).move_step e).receipts with same | ⟨b, grown, new⟩
    · exact earlier (same ▸ ha)
    rcases List.mem_append.mp (grown ▸ ha) with ha | ha
    · exact earlier ha
    obtain rfl := List.mem_singleton.mp ha
    rcases new with ⟨_, x, -, -, rfl⟩ | ⟨rfl, due, -⟩
    · cases failed
    · rw [failed] at due
      exact dropped_of_due sound seated (chronicle events) (newest_run events) due

/-- A call whose key has nothing in the map, or a failed slot only, runs a new slot. -/
theorem Sound.running?_enter (h : t.Sound) {roots : List Coordinate}
    (free : ∀ u, t.cache.mapped? (.ofRoots roots) = some u → u.failed = true) :
    (t.step (.call roots)).cache.running? t.cache.next = some t.calls := by
  have opens : ∃ m : Cache, t.cache.start t.calls (.ofRoots roots) = m.create t.calls (.ofRoots roots) ∧
      m.next = t.cache.next ∧ ∀ s ∈ m.slots, s.number < m.next := by
    cases found : t.cache.mapped? (.ofRoots roots) with
    | none => exact ⟨t.cache, by simp only [Cache.start, found], rfl, h.cache.numbered⟩
    | some s =>
      obtain ⟨again, gone⟩ := h.cache.start_of_failed found (free s found) t.calls
      refine ⟨t.cache.unmap s.number, again.trans ?_, rfl, Cache.numbered_unmap h.cache.numbered s.number⟩
      simp only [Cache.start, gone]
  obtain ⟨m, hc, next, numbered⟩ := opens
  simp only [Traffic.step, Traffic.enter, hc, ← next]
  exact Cache.running?_create numbered t.calls _

/-! ### What stays in the map -/

theorem mem_collect_modify {m : Cache} {u : Slot} {g : Slot → Slot} {number : Nat} (hu : u ∈ m.slots)
    (mapped : u.mapped = true) (kept : u.number = number → (g u).mapped = true) :
    (if u.number = number then g u else u) ∈ (m.modify number g).collect.slots := by
  refine List.mem_filter.mpr ⟨List.mem_map_of_mem hu, ?_⟩
  split
  · rename_i here
    simp [Slot.reachable, kept here]
  · simp [Slot.reachable, mapped]

/-- A slot that has not failed stays in the map unless the map is swept. -/
theorem Move.stays_mapped (move : t.Move e t') (sound : t.Sound) (calm : ¬ e.Sweeps) {u : Slot}
    (hu : u ∈ t.cache.slots) (mapped : u.mapped = true) (unfailed : u.failed = false) :
    ∃ u' ∈ t'.cache.slots, u'.number = u.number ∧ u'.mapped = true := by
  cases move with
  | hits found => exact ⟨u, hu, rfl, mapped⟩
  | joins found running =>
    refine ⟨_, List.mem_map_of_mem hu, ?_⟩
    split <;> exact ⟨rfl, mapped⟩
  | opens absent => exact ⟨u, Cache.mem_create.mpr (.inl hu), rfl, mapped⟩
  | @reopens roots s found failed =>
    have other : u.number ≠ s.number := by
      intro same
      rw [sound.cache.eq_of_number hu (Cache.mem_of_mapped? found).1 same, failed] at unfailed
      cases unfailed
    have stays : u ∈ (t.cache.unmap s.number).slots := by
      have mem := mem_collect_modify (g := fun s => { s with mapped := false }) hu mapped
        fun same => absurd same other
      rwa [if_neg other] at mem
    exact ⟨u, Cache.mem_create.mpr (.inl stays), rfl, mapped⟩
  | ends found running =>
    refine ⟨_, List.mem_map_of_mem hu, ?_⟩
    split
    · dsimp only
      split <;> exact ⟨rfl, mapped⟩
    · exact ⟨rfl, mapped⟩
  | @takes call slot runner s o waits found ended =>
    rw [Cache.slots_leave]
    obtain ⟨hs, number⟩ := Cache.mem_of_slot? found
    have kept : u.number = slot → (u.mapped && o.isOk) = true := by
      intro here
      obtain rfl := sound.cache.eq_of_number hu hs (here.trans number.symm)
      cases o with
      | ok x => rw [mapped]; rfl
      | error error => simp [Slot.failed, ended] at unfailed
    refine ⟨_, mem_collect_modify hu mapped kept, ?_⟩
    split
    · exact ⟨rfl, kept (by assumption)⟩
    · exact ⟨rfl, mapped⟩
  | leaves waits =>
    refine ⟨_, mem_collect_modify hu mapped fun _ => mapped, ?_⟩
    split <;> exact ⟨rfl, mapped⟩
  | invalidates c => exact absurd trivial calm
  | clears => exact absurd trivial calm
  | endsNone ended => exact ⟨u, hu, rfl, mapped⟩
  | takesNone running => exact ⟨u, hu, rfl, mapped⟩
  | leavesNone absent => exact ⟨u, hu, rfl, mapped⟩

/-- And it is the same slot, which has failed only if its own run has. -/
theorem Sound.mapped?_step (h : t.Sound) (calm : ¬ e.Sweeps) {k : RootKey} {u : Slot}
    (found : t.cache.mapped? k = some u) (unfailed : u.failed = false)
    (other : ∀ error, e ≠ .finish u.number (.error error)) :
    ∃ u', (t.step e).cache.mapped? k = some u' ∧ u'.number = u.number ∧ u'.failed = false ∧
      ∀ x, u.completed? = some x → u'.completed? = some x := by
  have move := t.move_step e
  obtain ⟨hu, mapped, key⟩ := Cache.mem_of_mapped? found
  obtain ⟨u', hu', number, mapped'⟩ := move.stays_mapped h calm hu mapped unfailed
  rcases move.slot h hu' with ⟨r, hr, turns⟩ | ⟨roots, -, rfl⟩
  · obtain rfl := h.cache.eq_of_number hr hu (turns.number.symm.trans number)
    have found' := (h.step e).cache.mapped?_key hu' mapped'
    rw [turns.key, key] at found'
    refine ⟨u', found', number, ?_, ?_⟩
    · rcases turns.outcome with same | ⟨-, result, runner, rfl, -, ended⟩
      · rw [Slot.failed, same, ← Slot.failed, unfailed]
      · cases result with
        | ok p => simp [Slot.failed, ended, Cache.outcomeOf, Except.map]
        | error error => exact absurd rfl (other error)
    · intro x completed
      obtain ⟨runner, ho⟩ := Slot.completed?_eq_some.mp completed
      rcases turns.outcome with same | ⟨running, -⟩
      · exact Slot.completed?_eq_some.mpr ⟨runner, same.trans ho⟩
      · cases running.symm.trans ho
  · have old := h.cache.numbered u hu
    simp only at number
    omega

theorem Sound.mapped?_run (h : t.Sound) {k : RootKey} {u : Slot} {later : List Event}
    (found : t.cache.mapped? k = some u) (unfailed : u.failed = false)
    (calm : ∀ e ∈ later, ¬ e.Sweeps)
    (other : ∀ error, .finish u.number (.error error) ∉ later) :
    ∃ u', (t.run later).cache.mapped? k = some u' ∧ u'.number = u.number ∧
      ∀ x, u.completed? = some x → u'.completed? = some x := by
  induction later generalizing t u with
  | nil => exact ⟨u, found, rfl, fun _ => id⟩
  | cons e later ih =>
    simp only [List.mem_cons, forall_eq_or_imp] at calm
    simp only [List.mem_cons, not_or] at other
    obtain ⟨v, found', number, unfailed', completed⟩ :=
      h.mapped?_step calm.1 found unfailed fun error => Ne.symm (other error).1
    obtain ⟨w, found'', number', completed'⟩ :=
      ih (h.step e) found' unfailed' calm.2 fun error => number ▸ (other error).2
    exact ⟨w, found'', number'.trans number, fun x hx => completed' x (completed x hx)⟩

/-- A call that takes an outcome along leaves the other slots in the map. -/
theorem Seated.mapped?_deliver (h : t.Seated) {k : RootKey} {u : Slot} {call slot : Nat}
    (found : t.cache.mapped? k = some u) (waits : (call, slot) ∈ t.waiting)
    (other : u.number ≠ slot) : (t.step (.deliver call)).cache.mapped? k = some u := by
  simp only [Traffic.step, Traffic.take, h.lookup waits]
  split
  · exact found
  · rename_i o cache delivered
    obtain ⟨s, runner, -, -, rfl⟩ := Cache.deliver_eq_some delivered
    exact Cache.mapped?_leave_of_ne found other _ _ _

/-- Failures are shared, and they are not kept. Whoever waits on a slot when its run fails gets the
failure. Whoever comes when a run has ended gets no failure of that run. As soon as a call has taken
a failure along, its slot is out of the map, and the next call for the key starts a new run, unless
a slot that was opened since and has not failed is in the map. To evict a slot, at once, later or
again, takes no other slot out of the map; one that has not failed stays there until the map is
swept or its own run fails. -/
structure Fleeting (events : List Event) (t : Traffic) : Prop where
  shared : ∀ slot runner call, t.cache.running? slot = some runner → (call, slot) ∈ t.waiting →
    ∀ error landing, .cancel call ∉ landing → .deliver call ∈ landing →
      ⟨call, slot, .error error⟩ ∈ ((t.step (.finish slot (.error error))).run landing).receipts
  early : ∀ before, before <+: events → ∀ s ∈ (idle.run before).cache.slots, s.outcome ≠ none →
    ∀ a ∈ t.receipts, (idle.run before).calls ≤ a.call → ∀ error, a.outcome = .error error →
      a.slot ≠ s.number
  dropped : ∀ a ∈ t.receipts, ∀ error, a.outcome = .error error →
    (∀ s ∈ t.cache.slots, s.number = a.slot → s.mapped = false) ∧
    ∃ k, Asks events a.call k ∧ ∀ roots, .ofRoots roots = k →
      (t.step (.call roots)).cache.running? t.cache.next = some t.calls ∨
      ∃ u, t.cache.mapped? k = some u ∧ a.slot < u.number ∧ u.failed = false
  spared : ∀ k u, t.cache.mapped? k = some u → ∀ slot, u.number ≠ slot →
    (t.cache.unmap slot).mapped? k = some u ∧
    ∀ call, (call, slot) ∈ t.waiting → (t.step (.deliver call)).cache.mapped? k = some u
  kept : ∀ k u, t.cache.mapped? k = some u → u.failed = false → ∀ later,
    (∀ e ∈ later, ¬ e.Sweeps) → (∀ error, .finish u.number (.error error) ∉ later) →
      ∃ u', (t.run later).cache.mapped? k = some u' ∧ u'.number = u.number ∧
        ∀ x, u.completed? = some x → u'.completed? = some x

theorem fleeting_run (events : List Event) : Fleeting events (idle.run events) := by
  have sound : (idle.run events).Sound := sound_idle.run events
  have seated : (idle.run events).Seated := seated_idle.run sound_idle events
  refine ⟨?_, ?_, ?_, ?_, fun k u found unfailed later => sound.mapped?_run found unfailed⟩
  · intro slot runner call runs waits error landing
    obtain ⟨s, hs, number, running, first⟩ := (running?_eq_some sound seated).mp runs
    have underway : (idle.run events).Underway slot s.key runner call :=
      ⟨⟨s, hs, number, rfl, running⟩, first, waits⟩
    have due := underway.finish sound seated (.error error)
    exact Serves.run (.inl due) (sound.step _) (seated.move sound (move_step _ _))
  · rintro before ⟨later, rfl⟩ s hs ended a ha late error failed
    have sound' : (idle.run before).Sound := sound_idle.run before
    rw [run_append] at ha
    have open_slot := ((Later.refl sound').run sound' later).receipts a ha late error failed
    exact open_slot.ne_of_ended sound' hs ended
  · intro a ha error failed
    have dropped := dropped_run events ha failed
    obtain ⟨k, asks, since⟩ := dropped.since
    refine ⟨dropped.unmapped, k, asks, ?_⟩
    rintro roots rfl
    by_cases free : ∀ u, (idle.run events).cache.mapped? (.ofRoots roots) = some u → u.failed = true
    · exact .inl (sound.running?_enter free)
    · push Not at free
      obtain ⟨u, found, unfailed⟩ := free
      obtain ⟨hu, mapped, key⟩ := Cache.mem_of_mapped? found
      exact .inr ⟨u, found, since u hu mapped key, by simpa using unfailed⟩
  · intro k u found slot other
    exact ⟨Cache.mapped?_unmap_of_ne found other,
      fun call waits => seated.mapped?_deliver found waits other⟩

end Traffic

namespace Sample

def noManifest : PackageError := .resolve (.unresolved [] (holding [core]).1)

/-- Two calls wait for a run of `core`, which fails. The first of them leaves, and `core` is asked
for again, which fails once more, and a third time. The second call has not left yet. -/
def faltering : List Traffic.Event :=
  [.call [core], .call [core], .finish 0 (.error noManifest), .deliver 0, .call [core],
    .finish 1 (.error noManifest), .deliver 2, .call [core]]

def faltered : Traffic := Traffic.idle.run faltering

end Sample

open Sample in
theorem Traffic.fleeting_run_sample :
    (faltered.cache.running? 2 = some 3 ∧
      ⟨3, 2, .error noManifest⟩ ∈ ((faltered.step (.finish 2 (.error noManifest))).run
        [.deliver 1, .deliver 3]).receipts) ∧
    (⟨2, 1, .error noManifest⟩ ∈ faltered.receipts ∧ (idle.run (faltering.take 3)).calls ≤ 2 ∧
      ∃ s ∈ (idle.run (faltering.take 3)).cache.slots, s.failed = true ∧ 1 ≠ s.number) ∧
    ((faltered.step (.call [core])).cache.running? 3 = some 4 ∨
      ∃ u, faltered.cache.mapped? (.ofRoots [core]) = some u ∧ 1 < u.number ∧ u.failed = false) ∧
    ((1, 0) ∈ faltered.waiting ∧ ∃ u, u.number = 2 ∧
      (faltered.step (.deliver 1)).cache.mapped? (.ofRoots [core]) = some u) ∧
    ∃ u', (faltered.run [.deliver 1, .finish 2 (.ok (holding [core]))]).cache.mapped?
      (.ofRoots [core]) = some u' ∧ u'.number = 2 := by
  obtain ⟨shared, early, dropped, spared, kept⟩ := fleeting_run faltering
  have runs : faltered.cache.running? 2 = some 3 := by decide +kernel
  have received : ⟨2, 1, .error noManifest⟩ ∈ faltered.receipts := by decide +kernel
  have late : (idle.run (faltering.take 3)).calls ≤ 2 := by decide +kernel
  have waits : (1, 0) ∈ faltered.waiting := by decide +kernel
  obtain ⟨s, hs, failed, ended⟩ : ∃ s ∈ (idle.run (faltering.take 3)).cache.slots,
      s.failed = true ∧ s.outcome ≠ none := by decide +kernel
  obtain ⟨u, found, number, unfailed⟩ : ∃ u, faltered.cache.mapped? (.ofRoots [core]) = some u ∧
      u.number = 2 ∧ u.failed = false := ⟨_, rfl, rfl, rfl⟩
  obtain ⟨-, k, asks, next⟩ := dropped _ received noManifest rfl
  have key : k = .ofRoots [core] := asks.unique ⟨[core], rfl, rfl⟩
  subst key
  obtain ⟨u', found', number', -⟩ := kept _ u found unfailed
    [.deliver 1, .finish 2 (.ok (holding [core]))] (by simp [Event.Sweeps]) (by simp)
  refine ⟨⟨runs, ?_⟩, ⟨received, late, s, hs, failed, ?_⟩, next [core] rfl,
    ⟨waits, u, number, ?_⟩, u', found', number'.trans number⟩
  · exact shared 2 3 3 runs (by decide +kernel) noManifest _ (by simp) (by simp)
  · exact early (faltering.take 3) (List.take_prefix 3 faltering) s hs ended _ received late _ rfl
  · exact (spared _ u found 0 (by simp [number])).2 1 waits

end Depot
