import Depot.Proofs.Cache.Renaming

/-!
# Operations

What is asked of a cache from outside, where a run is named by a call that waits for it. The same
operations can be asked for when one more call has come before; only the numbers of the later calls
are others then, and those of the slots.
-/

namespace Depot

namespace Traffic

inductive Operation where
  | call (roots : List Coordinate)
  | ends (call : Nat) (result : Except PackageError (Resolution × Classpath))
  | deliver (call : Nat)
  | cancel (call : Nat)
  | invalidate (c : Coordinate)
  | clear

/-- The event that an operation is. Who does not wait has no run that could end. -/
def event? (t : Traffic) : Operation → Option Event
  | .call roots => some (.call roots)
  | .ends call result => (t.waiting.lookup call).map fun slot => .finish slot result
  | .deliver call => some (.deliver call)
  | .cancel call => some (.cancel call)
  | .invalidate c => some (.invalidate c)
  | .clear => some .clear

def operate (t : Traffic) (op : Operation) : Traffic := (t.event? op).elim t t.step

def operateAll (t : Traffic) (ops : List Operation) : Traffic := ops.foldl operate t

variable {t t' u : Traffic} {op : Operation}

theorem operateAll_append (t : Traffic) (ops later : List Operation) :
    t.operateAll (ops ++ later) = (t.operateAll ops).operateAll later := List.foldl_append

theorem operate_cases (t : Traffic) (op : Operation) :
    t.operate op = t ∨ ∃ e, t.operate op = t.step e := by
  unfold operate
  cases t.event? op with
  | none => exact .inl rfl
  | some e => exact .inr ⟨e, rfl⟩

/-- What holds after every history, whatever is asked for later. -/
structure Orderly (t : Traffic) : Prop where
  sound : t.Sound
  seated : t.Seated
  receipts : ∀ a ∈ t.receipts, a.slot < t.cache.next

namespace Orderly

theorem step (h : t.Orderly) (e : Event) : (t.step e).Orderly := by
  have adv := h.sound.advances e
  refine ⟨h.sound.step e, h.seated.move h.sound (t.move_step e), fun a ha => ?_⟩
  refine Nat.lt_of_lt_of_le ?_ adv.cache.follows.next_le
  rcases adv.receipts a ha with ha | ⟨⟨-, s, hs, number, -⟩, -⟩ | ⟨-, s, hs, number, -⟩
  · exact h.receipts a ha
  all_goals exact number ▸ h.sound.cache.numbered s hs

theorem run (events : List Event) : (idle.run events).Orderly := by
  induction events using List.reverseRecOn with
  | nil => exact ⟨sound_idle, seated_idle, by simp [idle, Traffic.run]⟩
  | append_singleton events e ih =>
    rw [run_append]
    exact ih.step e

theorem operate (h : t.Orderly) (op : Operation) : (t.operate op).Orderly := by
  rcases t.operate_cases op with same | ⟨e, stepped⟩
  · rwa [same]
  · rw [stepped]
    exact h.step e

theorem operateAll (h : t.Orderly) (ops : List Operation) : (t.operateAll ops).Orderly := by
  induction ops generalizing t with
  | nil => exact h
  | cons op ops ih => exact ih (h.operate op)

theorem slot_lt (h : t.Orderly) {p : Nat × Nat} (hp : p ∈ t.waiting) : p.2 < t.cache.next := by
  obtain ⟨s, hs, number⟩ := h.seated.seats.seat p hp
  exact number ▸ h.sound.cache.numbered s hs

/-- Who runs is the first of the callers of a slot without an outcome. -/
theorem runs_iff (h : t.Orderly) {i : Nat} :
    t.Runs i ↔ ∃ s ∈ t.cache.slots, s.outcome = none ∧ s.callers.head? = some i := by
  constructor
  · rintro ⟨slot, runs⟩
    obtain ⟨s, hs, rfl, running, first⟩ := (running?_eq_some h.sound h.seated).mp runs
    exact ⟨s, hs, running, h.seated.seats.callers s hs ▸ first⟩
  · rintro ⟨s, hs, running, first⟩
    refine ⟨s.number, (running?_eq_some h.sound h.seated).mpr ⟨s, hs, rfl, running, ?_⟩⟩
    rwa [← h.seated.seats.callers s hs]

end Orderly

/-- Invalidations are the only operations that count what they take out. -/
theorem operate_invalidations (t : Traffic) (op : Operation) :
    (t.operate op).cache.invalidations = t.cache.invalidations + match op with
      | .invalidate c => (t.cache.invalidate c).1
      | _ => 0 := by
  cases op with
  | invalidate c => rfl
  | ends i result =>
    cases waits : t.waiting.lookup i with
    | none => simp [operate, event?, waits]
    | some slot =>
      have kept := (t.move_step (.finish slot result)).invalidations
      simpa [operate, event?, waits, evicted?] using kept
  | call roots => exact (t.move_step (.call roots)).invalidations
  | deliver i => exact (t.move_step (.deliver i)).invalidations
  | cancel i => exact (t.move_step (.cancel i)).invalidations
  | clear => rfl

/-! ### Numbers without one call -/

/-- The numbers of calls if one more has come before. -/
def passing (c i : Nat) : Nat := if i < c then i else i + 1

/-- The numbers of slots if one more was opened before. If it is joined again, when the others have
come to `m`, it stands for the slot that is opened then, and the later ones have the same number. -/
def shifted (n m i : Nat) : Nat :=
  if i < n then i else if i < m then i + 1 else if i = m then n else i

variable {c n m i j : Nat} {k : RootKey}

theorem passing_of_lt (h : i < c) : passing c i = i := if_pos h

theorem passing_of_le (h : c ≤ i) : passing c i = i + 1 := if_neg (Nat.not_lt.mpr h)

theorem passing_ne (c i : Nat) : passing c i ≠ c := by
  unfold passing
  split <;> omega

theorem passing_injective (c : Nat) : (passing c).Injective := by
  intro i j h
  unfold passing at h
  split at h <;> split at h <;> omega

theorem shifted_of_lt (h : i < n) : shifted n m i = i := if_pos h

theorem shifted_self (h : n ≤ m) : shifted n m m = n := by
  unfold shifted
  rw [if_neg (by omega), if_neg (by omega), if_pos rfl]

theorem shifted_of_gt (h : n ≤ m) (hi : m < i) : shifted n m i = i := by
  unfold shifted
  rw [if_neg (by omega), if_neg (by omega), if_neg (by omega)]

theorem shifted_succ (hi : i < m) : shifted n (m + 1) i = shifted n m i := by
  unfold shifted
  rw [if_pos hi, if_pos (Nat.lt_succ_of_lt hi)]

theorem shifted_last (h : n ≤ m) : shifted n (m + 1) m = m + 1 := by
  unfold shifted
  rw [if_neg (by omega), if_pos (by omega)]

theorem shifted_ne (hi : i < m) : shifted n m i ≠ n := by
  unfold shifted
  rw [if_pos hi]
  split <;> omega

theorem shifted_injective (h : n ≤ m) : (shifted n m).Injective := by
  intro i j same
  unfold shifted at same
  grind

namespace Operation

/-- The same operation if one more call has come before. -/
def passing (c : Nat) : Operation → Operation
  | .ends i result => .ends (Traffic.passing c i) result
  | .deliver i => .deliver (Traffic.passing c i)
  | .cancel i => .cancel (Traffic.passing c i)
  | op => op

/-- Whether an operation asks for a key or takes it out of the map. -/
def Concerns (k : RootKey) : Operation → Bool
  | .call roots => RootKey.ofRoots roots = k
  | .invalidate _ => true
  | .clear => true
  | _ => false

def invalidates : Operation → Bool
  | .invalidate _ => true
  | _ => false

theorem concerns_of_invalidates {op : Operation} (h : op.invalidates = true) :
    op.Concerns k = true := by
  cases op with
  | invalidate x => rfl
  | _ => cases h

end Operation

end Traffic

end Depot
