import Depot.Proofs.Cache.Steps
import Depot.Repository

/-!
# The cache between calls

When nobody is in a call, each slot is in the map and holds a completed resolution. A call from
such a state is a hit, or it opens a new slot beside the old ones. In either case the cache is at
rest again when the call has returned, and so it is after an invalidation, which keeps exactly the
resolutions that do not depend on the changed coordinate.
-/

namespace Depot

/-- A slot in the map that nobody waits on, with the resolution of its own key. -/
structure Slot.Holds (s : Slot) (x : CachedResolution) : Prop where
  mapped : s.mapped = true
  idle : s.callers = []
  completed : s.completed? = some x
  key_eq : x.key = s.key

namespace Slot.Holds

variable {s : Slot} {x : CachedResolution}

theorem reachable (h : s.Holds x) : s.reachable = true := by simp [Slot.reachable, h.mapped]

theorem not_failed (h : s.Holds x) : s.failed = false := by
  obtain ⟨runner, ho⟩ := Slot.completed?_eq_some.mp h.completed
  simp [Slot.failed, ho]

theorem outdated (h : s.Holds x) (c : Coordinate) : s.outdated c = x.dependsOn c := by
  obtain ⟨runner, ho⟩ := Slot.completed?_eq_some.mp h.completed
  simp [Slot.outdated, ho]

end Slot.Holds

namespace Cache

/-- What the cache can answer at once. -/
def held (m : Cache) : List CachedResolution := m.slots.filterMap Slot.completed?

/-- Nobody is in a call, and new slots get new numbers. -/
structure AtRest (m : Cache) : Prop where
  holds : ∀ s ∈ m.slots, ∃ x, s.Holds x
  numbered : ∀ s ∈ m.slots, s.number < m.next

theorem atRest_empty : empty.AtRest := ⟨by simp [empty], by simp [empty]⟩

theorem held_empty : empty.held = [] := rfl

theorem mem_held {m : Cache} {s : Slot} {x : CachedResolution} (hs : s ∈ m.slots)
    (hx : s.Holds x) : x ∈ m.held :=
  List.mem_filterMap.mpr ⟨s, hs, hx.completed⟩

namespace AtRest

variable {m : Cache} {k : RootKey}

/-- A call is a hit on a resolution of its key, or it opens a slot. -/
theorem start_cases (h : m.AtRest) (call : Nat) (k : RootKey) :
    (∃ x ∈ m.held, x.key = k ∧ m.start call k = (.hit x, { m with hits := m.hits + 1 })) ∨
      m.start call k = m.create call k := by
  rcases Cache.start_cases m call k with
    ⟨-, hc⟩ | ⟨s, x, hs, completed, hc⟩ | ⟨s, hs, failed, -⟩ | ⟨s, hs, running, -⟩
  · exact .inr hc
  · obtain ⟨hs, -, hk⟩ := mem_of_mapped? hs
    obtain ⟨y, hy⟩ := h.holds s hs
    cases hy.completed.symm.trans completed
    exact .inl ⟨x, mem_held hs hy, hy.key_eq.trans hk, hc⟩
  · obtain ⟨y, hy⟩ := h.holds s (mem_of_mapped? hs).1
    simp [hy.completed] at failed
  · obtain ⟨y, hy⟩ := h.holds s (mem_of_mapped? hs).1
    obtain ⟨_, ho⟩ := Slot.completed?_eq_some.mp hy.completed
    simp [running] at ho

/-- Changing the newest slot leaves the others alone. -/
theorem map_newest (h : m.AtRest) (f : Slot → Slot) {s : Slot} (hn : s.number = m.next) :
    (m.slots ++ [s]).map (fun t => if t.number = m.next then f t else t) = m.slots ++ [f s] := by
  have old : m.slots.map (fun t => if t.number = m.next then f t else t) = m.slots := by
    conv => rhs; rw [← List.map_id m.slots]
    apply List.map_congr_left
    intro t ht
    have hlt := h.numbered t ht
    exact if_neg (by omega)
  rw [List.map_append, old, List.map_singleton, if_pos hn]

theorem filter_reachable (h : m.AtRest) : m.slots.filter Slot.reachable = m.slots := by
  apply List.filter_eq_self.mpr
  intro s hs
  obtain ⟨x, hx⟩ := h.holds s hs
  exact hx.reachable

/-- What a run leaves behind that nobody else waited for: its slot, if it did not fail. -/
def remains (call number : Nat) (k : RootKey) : Outcome → List Slot
  | .ok x => [⟨number, k, true, [], some (call, .ok x)⟩]
  | .error _ => []

theorem finish_create (h : m.AtRest) (call : Nat) (k : RootKey) (o : Outcome) :
    (m.create call k).2.finish m.next o =
      { m with slots := m.slots ++ [⟨m.next, k, true, [call], some (call, o)⟩], next := m.next + 1 } := by
  unfold finish modify create
  simp only
  rw [h.map_newest _ rfl]

/-- A call that runs from its start to its end adds at most its own slot. -/
theorem complete_create (h : m.AtRest) (call : Nat) (k : RootKey)
    (result : Except PackageError (Resolution × Classpath)) :
    (m.create call k).2.complete call m.next k result =
      (outcomeOf m.next k result,
        { m with
          slots := m.slots ++ remains call m.next k (outcomeOf m.next k result)
          next := m.next + 1
          misses := m.misses + 1 }) := by
  unfold complete
  simp only
  rw [h.finish_create]
  generalize outcomeOf m.next k result = o
  unfold leave modify collect
  simp only [if_true]
  rw [h.map_newest _ rfl, List.filter_append, h.filter_reachable]
  -- the caller is gone, so the new slot stays only if the map keeps it
  cases o <;> simp [remains, Slot.reachable]

theorem create (h : m.AtRest) (call : Nat) (k : RootKey)
    (result : Except PackageError (Resolution × Classpath)) :
    ((m.create call k).2.complete call m.next k result).2.AtRest := by
  rw [h.complete_create]
  constructor
  · intro s hs
    rcases List.mem_append.mp hs with hs | hs
    · exact h.holds s hs
    · cases result with
      | error e => simp [outcomeOf, Except.map, remains] at hs
      | ok p =>
        rw [List.mem_singleton.mp hs]
        exact ⟨_, rfl, rfl, rfl, rfl⟩
  · intro s hs
    rcases List.mem_append.mp hs with hs | hs
    · exact Nat.lt_succ_of_lt (h.numbered s hs)
    · cases result with
      | error e => simp [outcomeOf, Except.map, remains] at hs
      | ok p =>
        rw [List.mem_singleton.mp hs]
        exact Nat.lt_succ_self m.next

/-- Only the outcome of the run comes to what is held. -/
theorem held_create (h : m.AtRest) {call : Nat} {k : RootKey}
    {result : Except PackageError (Resolution × Classpath)} {x : CachedResolution}
    (hx : x ∈ ((m.create call k).2.complete call m.next k result).2.held) :
    x ∈ m.held ∨ outcomeOf m.next k result = .ok x := by
  rw [h.complete_create, held, List.filterMap_append] at hx
  rcases List.mem_append.mp hx with hx | hx
  · exact .inl hx
  · cases ho : outcomeOf m.next k result with
    | error e => simp [ho, remains] at hx
    | ok y =>
      simp only [ho, remains, List.filterMap_cons, Slot.completed?, List.filterMap_nil,
        List.mem_singleton] at hx
      exact .inr (by rw [hx])

/-- Slots that nobody waits on are gone as soon as they leave the map. -/
theorem filter_unmapped (h : m.AtRest) (keep : Slot → Bool) :
    (m.slots.map fun s => { s with mapped := s.mapped && keep s }).filter Slot.reachable =
      m.slots.filter keep := by
  have idle : ∀ s ∈ m.slots, s.mapped = true ∧ s.callers = [] := by
    intro s hs
    obtain ⟨x, hx⟩ := h.holds s hs
    exact ⟨hx.mapped, hx.idle⟩
  generalize m.slots = slots at idle
  induction slots with
  | nil => rfl
  | cons s slots ih =>
    obtain ⟨mapped, callers⟩ := idle s List.mem_cons_self
    have ih := ih fun t ht => idle t (List.mem_cons_of_mem s ht)
    obtain ⟨number, key, _, _, outcome⟩ := s
    subst mapped callers
    cases hk : keep ⟨number, key, true, [], outcome⟩ with
    | true => simpa [List.filter_cons, Slot.reachable, hk] using ih
    | false => simpa [List.filter_cons, Slot.reachable, hk] using ih

/-- An invalidation keeps the slots that it does not concern, as they are. -/
theorem slots_invalidate (h : m.AtRest) (c : Coordinate) :
    (m.invalidate c).2.slots = m.slots.filter fun s => !s.outdated c := by
  have kept := h.filter_unmapped fun s => !s.outdated c && !s.failed
  simp only [← Bool.and_assoc] at kept
  simp only [invalidate, collect]
  rw [kept]
  apply List.filter_congr
  intro s hs
  obtain ⟨x, hx⟩ := h.holds s hs
  rw [hx.not_failed, Bool.not_false, Bool.and_true]

theorem invalidate (h : m.AtRest) (c : Coordinate) : (m.invalidate c).2.AtRest := by
  constructor <;> rw [h.slots_invalidate c]
  · exact fun s hs => h.holds s ((List.mem_filter.mp hs).1)
  · exact fun s hs => h.numbered s ((List.mem_filter.mp hs).1)

theorem held_invalidate (h : m.AtRest) {c : Coordinate} {x : CachedResolution}
    (hx : x ∈ (m.invalidate c).2.held) : x ∈ m.held ∧ x.dependsOn c = false := by
  rw [held, h.slots_invalidate c] at hx
  obtain ⟨s, hs, hc⟩ := List.mem_filterMap.mp hx
  obtain ⟨hs, kept⟩ := List.mem_filter.mp hs
  obtain ⟨y, hy⟩ := h.holds s hs
  cases hy.completed.symm.trans hc
  refine ⟨mem_held hs hy, ?_⟩
  rwa [hy.outdated c, Bool.not_eq_true'] at kept

theorem slots_clear (h : m.AtRest) : m.clear.slots = [] := by
  have gone := h.filter_unmapped fun _ => false
  simp only [Bool.and_false] at gone
  exact gone.trans (List.filter_eq_nil_iff.mpr (by simp))

theorem clear (h : m.AtRest) : m.clear.AtRest := by
  constructor <;> simp [h.slots_clear]

end AtRest

end Cache

end Depot
