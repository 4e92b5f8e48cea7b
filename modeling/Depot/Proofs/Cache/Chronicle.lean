import Mathlib.Data.List.Induction
import Depot.Proofs.Cache.Moves

/-!
# Chronicle

What a history tells about the calls that wait and about what the others got. A call waits on a slot
of its own key and gets no resolution of another. A slot without an outcome is in the map unless the
map was swept, and so two calls for a key wait on two such slots only if that was between them.
-/

namespace Depot

namespace Traffic

def Event.roots? : Event → Option (List Coordinate)
  | .call roots => some roots
  | _ => none

/-- What the calls of a history ask for, in the order in which they come. -/
def asked (events : List Event) : List (List Coordinate) := events.filterMap Event.roots?

/-- A call has come with roots of this key. -/
def Asks (events : List Event) (call : Nat) (k : RootKey) : Prop :=
  ∃ roots, (asked events)[call]? = some roots ∧ .ofRoots roots = k

/-- The map was swept after the one call had come and before the other did. -/
def SweptBetween (events : List Event) (call call' : Nat) : Prop :=
  ∃ earlier e later, events = earlier ++ e :: later ∧ e.Sweeps ∧
    call < (idle.run earlier).calls ∧ (idle.run earlier).calls ≤ call'

section

variable {events : List Event} {call call' : Nat}

theorem asked_append (events later : List Event) :
    asked (events ++ later) = asked events ++ asked later :=
  List.filterMap_append

theorem Asks.append {k : RootKey} (h : Asks events call k) (later : List Event) :
    Asks (events ++ later) call k := by
  obtain ⟨roots, found, key⟩ := h
  refine ⟨roots, ?_, key⟩
  rw [asked_append, List.getElem?_append_left (List.getElem?_eq_some_iff.mp found).1]
  exact found

theorem Asks.unique {k k' : RootKey} (h : Asks events call k) (h' : Asks events call k') :
    k = k' := by
  obtain ⟨roots, found, key⟩ := h
  obtain ⟨roots', found', key'⟩ := h'
  cases found.symm.trans found'
  exact key.symm.trans key'

/-- The call that has just come. -/
theorem asks_last (events : List Event) (roots : List Coordinate) :
    Asks (events ++ [.call roots]) (asked events).length (.ofRoots roots) :=
  ⟨roots, by simp [asked, Event.roots?], rfl⟩

theorem SweptBetween.append (h : SweptBetween events call call') (later : List Event) :
    SweptBetween (events ++ later) call call' := by
  obtain ⟨earlier, e, rest, rfl, sweeps, before, after⟩ := h
  exact ⟨earlier, e, rest ++ later, by simp, sweeps, before, after⟩

theorem SweptBetween.le (h : SweptBetween events call call') {call'' : Nat} (le : call' ≤ call'') :
    SweptBetween events call call'' := by
  obtain ⟨earlier, e, rest, rfl, sweeps, before, after⟩ := h
  exact ⟨earlier, e, rest, rfl, sweeps, before, Nat.le_trans after le⟩

end

variable {t t' : Traffic} {e : Event} {events : List Event}

namespace Move

theorem calls_eq (move : t.Move e t') : t'.calls = t.calls + (asked [e]).length := by
  cases move <;> rfl

/-- An event without an outcome for a slot has not taken one away. -/
theorem Turns.running {s s' : Slot} (h : Turns e s s') (running : s'.outcome = none) :
    s.outcome = none := by
  rcases h.outcome with same | ⟨none, -⟩
  · rw [← same, running]
  · exact none

/-- The slot that a call waits on, as it was before an event. -/
theorem slot_of_waiting (move : t.Move e t') (sound : t.Sound) (seated : t.Seated) {p : Nat × Nat}
    (hp : p ∈ t.waiting) {s' : Slot} (hs : s' ∈ t'.cache.slots) (hn : s'.number = p.2) :
    ∃ s ∈ t.cache.slots, Turns e s s' := by
  rcases move.slot sound hs with old | ⟨roots, rfl, rfl⟩
  · exact old
  · obtain ⟨s, hs, number⟩ := seated.seats.seat p hp
    have early := sound.cache.numbered s hs
    simp only at hn
    omega

/-- Who joins those who wait has just come, and waits on a slot of its key that is in the map. -/
theorem slot_of_joined (move : t.Move e t') (sound : t.Sound) {p : Nat × Nat}
    (hp : p ∈ t'.waiting) (new : p ∉ t.waiting) {s' : Slot} (hs : s' ∈ t'.cache.slots)
    (hn : s'.number = p.2) :
    p.1 = t.calls ∧ s'.mapped = true ∧ ∃ roots, e = .call roots ∧ s'.key = .ofRoots roots := by
  have sitting : ∀ {m : Cache} {roots : List Coordinate}, (∀ s ∈ m.slots, s.number < m.next) →
      p ∈ t.waiting ++ [(t.calls, m.next)] → s' ∈ (m.create t.calls (.ofRoots roots)).2.slots →
      p.1 = t.calls ∧ s'.mapped = true ∧
        ∃ roots', Event.call roots = .call roots' ∧ s'.key = .ofRoots roots' := by
    intro m roots numbered hp hs
    have hp := List.mem_singleton.mp ((List.mem_append.mp hp).resolve_left new)
    subst hp
    rcases Cache.mem_create.mp hs with hs | rfl
    · have old := numbered s' hs
      simp only at hn
      omega
    · exact ⟨rfl, rfl, roots, rfl, rfl⟩
  cases move with
  | hits found => exact absurd hp new
  | @joins roots s found running =>
    obtain ⟨mem, mapped, key⟩ := Cache.mem_of_mapped? found
    have hp := List.mem_singleton.mp ((List.mem_append.mp hp).resolve_left new)
    subst hp
    obtain ⟨u, hu, rfl⟩ := List.mem_map.mp hs
    split at hn
    · rename_i here
      rw [if_pos here, sound.cache.eq_of_number hu mem here]
      exact ⟨rfl, mapped, roots, rfl, key⟩
    · exact absurd hn (by assumption)
  | opens absent => exact sitting sound.cache.numbered hp hs
  | reopens found failed =>
    exact sitting (Cache.numbered_unmap sound.cache.numbered _) hp hs
  | ends found running => exact absurd hp new
  | takes waits found ended => exact absurd (mem_of_mem_waitingBut hp) new
  | leaves waits => exact absurd (mem_of_mem_waitingBut hp) new
  | invalidates c => exact absurd hp new
  | clears => exact absurd hp new
  | endsNone ended => exact absurd hp new
  | takesNone running => exact absurd hp new
  | leavesNone absent => exact absurd hp new

end Move

/-- What holds after every history. -/
structure Chronicle (events : List Event) (t : Traffic) : Prop where
  calls : t.calls = (asked events).length
  keyed : ∀ p ∈ t.waiting, ∀ s ∈ t.cache.slots, s.number = p.2 → Asks events p.1 s.key
  stamped : ∀ a ∈ t.receipts, ∀ x, a.outcome = .ok x → Asks events a.call x.key
  detached : ∀ p ∈ t.waiting, ∀ s ∈ t.cache.slots, s.number = p.2 → s.outcome = none →
    s.mapped = true ∨ SweptBetween events p.1 t.calls
  apart : ∀ p ∈ t.waiting, ∀ q ∈ t.waiting, p.1 < q.1 → ∀ s ∈ t.cache.slots, s.number = p.2 →
    s.outcome = none → ∀ u ∈ t.cache.slots, u.number = q.2 → s.key = u.key →
      s = u ∨ SweptBetween events p.1 q.1

theorem chronicle_idle : Chronicle [] idle := by
  constructor <;> simp [idle, asked]

namespace Chronicle

variable (h : Chronicle events t) (sound : t.Sound) (seated : t.Seated) (move : t.Move e t')

include h move in
theorem calls_step : t'.calls = (asked (events ++ [e])).length := by
  rw [move.calls_eq, h.calls, asked_append, List.length_append]

include h sound move in
theorem stamped_step {a : Receipt} (ha : a ∈ t'.receipts) {x : CachedResolution}
    (ho : a.outcome = .ok x) : Asks (events ++ [e]) a.call x.key := by
  have carried : a ∈ t.receipts → Asks (events ++ [e]) a.call x.key :=
    fun ha => (h.stamped a ha x ho).append _
  rcases move.receipts with same | ⟨b, grown, new⟩
  · exact carried (same ▸ ha)
  rw [grown] at ha
  rcases List.mem_append.mp ha with ha | ha
  · exact carried ha
  obtain rfl := List.mem_singleton.mp ha
  rcases new with ⟨roots, y, rfl, found, rfl⟩ | ⟨-, ⟨waits, s, hs, hn, runner, ended⟩, -⟩
  · cases ho
    obtain ⟨s, mapped, completed⟩ := Cache.get?_eq_some_iff.mp found
    obtain ⟨hs, -, key⟩ := Cache.mem_of_mapped? mapped
    rw [(sound.cache.signed s hs x completed).2, key, h.calls]
    exact asks_last events roots
  · rw [ho] at ended
    rw [(sound.cache.signed s hs x (Slot.completed?_eq_some.mpr ⟨runner, ended⟩)).2]
    exact (h.keyed _ waits s hs hn).append _

section

variable {p q : Nat × Nat} {s u : Slot}
include h sound seated move

theorem keyed_step (hp : p ∈ t'.waiting) (hs : s ∈ t'.cache.slots) (hn : s.number = p.2) :
    Asks (events ++ [e]) p.1 s.key := by
  by_cases old : p ∈ t.waiting
  · obtain ⟨r, hr, turns⟩ := move.slot_of_waiting sound seated old hs hn
    rw [turns.key]
    exact (h.keyed p old r hr (turns.number.symm.trans hn)).append _
  · obtain ⟨last, -, roots, rfl, key⟩ := move.slot_of_joined sound hp old hs hn
    rw [last, h.calls, key]
    exact asks_last events roots

/-- Only what sweeps the map takes a slot without an outcome out of it. -/
theorem detached_of_waiting (reached : t = idle.run events) (old : p ∈ t.waiting)
    (hs : s ∈ t'.cache.slots) (hn : s.number = p.2) (running : s.outcome = none) :
    s.mapped = true ∨ SweptBetween (events ++ [e]) p.1 t.calls := by
  obtain ⟨r, hr, turns⟩ := move.slot_of_waiting sound seated old hs hn
  have running := turns.running running
  rcases h.detached p old r hr (turns.number.symm.trans hn) running with mapped | swept
  · rcases turns.mapped with same | ended | sweeps
    · exact .inl (same.trans mapped)
    · exact absurd running ended
    · subst reached
      exact .inr ⟨events, e, [], rfl, sweeps, sound.waiting p old, Nat.le_refl _⟩
  · exact .inr (swept.append _)

theorem detached_step (reached : t = idle.run events) (hp : p ∈ t'.waiting)
    (hs : s ∈ t'.cache.slots) (hn : s.number = p.2) (running : s.outcome = none) :
    s.mapped = true ∨ SweptBetween (events ++ [e]) p.1 t'.calls := by
  by_cases old : p ∈ t.waiting
  · refine (h.detached_of_waiting sound seated move reached old hs hn running).imp_right ?_
    intro swept
    exact swept.le (move.calls_eq ▸ Nat.le_add_right _ _)
  · exact .inl (move.slot_of_joined sound hp old hs hn).2.1

/-- A call that comes joins the run for its key that is in the map, if there is one. -/
theorem apart_step (reached : t = idle.run events) (sound' : t'.Sound) (hp : p ∈ t'.waiting)
    (hq : q ∈ t'.waiting) (lt : p.1 < q.1) (hs : s ∈ t'.cache.slots) (hn : s.number = p.2)
    (running : s.outcome = none) (hu : u ∈ t'.cache.slots) (hn' : u.number = q.2)
    (key : s.key = u.key) : s = u ∨ SweptBetween (events ++ [e]) p.1 q.1 := by
  have old : p ∈ t.waiting := by
    by_contra new
    have last := (move.slot_of_joined sound hp new hs hn).1
    by_cases old' : q ∈ t.waiting
    · have early := sound.waiting q old'
      omega
    · have last' := (move.slot_of_joined sound hq old' hu hn').1
      omega
  by_cases old' : q ∈ t.waiting
  · obtain ⟨r, hr, turns⟩ := move.slot_of_waiting sound seated old hs hn
    obtain ⟨v, hv, turns'⟩ := move.slot_of_waiting sound seated old' hu hn'
    rcases h.apart p old q old' lt r hr (turns.number.symm.trans hn) (turns.running running)
      v hv (turns'.number.symm.trans hn') (by rw [← turns.key, key, turns'.key]) with same | swept
    · exact .inl (sound'.cache.eq_of_number hs hu (by rw [turns.number, same, turns'.number]))
    · exact .inr (swept.append _)
  · obtain ⟨last, mapped', -⟩ := move.slot_of_joined sound hq old' hu hn'
    rcases h.detached_of_waiting sound seated move reached old hs hn running with mapped | swept
    · exact .inl (sound'.cache.eq_of_number hs hu
        (sound'.cache.single s hs u hu mapped mapped' key))
    · exact .inr (last ▸ swept)

theorem step (reached : t = idle.run events) (sound' : t'.Sound) :
    Chronicle (events ++ [e]) t' where
  calls := h.calls_step move
  keyed := fun _ hp _ hs hn => h.keyed_step sound seated move hp hs hn
  stamped := fun _ ha _ ho => h.stamped_step sound move ha ho
  detached := fun _ hp _ hs hn running =>
    h.detached_step sound seated move reached hp hs hn running
  apart := fun _ hp _ hq lt _ hs hn running _ hu hn' key =>
    h.apart_step sound seated move reached sound' hp hq lt hs hn running hu hn' key

end

end Chronicle

theorem chronicle (events : List Event) : Chronicle events (idle.run events) := by
  induction events using List.reverseRecOn with
  | nil => exact chronicle_idle
  | append_singleton events e ih =>
    have sound : (idle.run events).Sound := sound_idle.run events
    have seated : (idle.run events).Seated := seated_idle.run sound_idle events
    rw [run_append]
    exact ih.step sound seated (move_step _ e) rfl (sound.step e)

end Traffic

end Depot
