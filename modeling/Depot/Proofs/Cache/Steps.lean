import Depot.Proofs.Cache.Slots

/-!
# What is done to a cache

One statement for each operation: the cache stays sound, its slots follow those before, and no
resolution leaves the map but by an invalidation that concerns it or when the map is cleared. The
outcome of a run goes to the slot that it was started for, wherever that slot is by then, and a
failure takes no slot out of the map but its own.
-/

namespace Depot

namespace Cache

variable {m m' : Cache} {keep : CachedResolution → Prop} {s t : Slot} {k : RootKey} {number : Nat}

/-- What a call meets: nothing, a resolution, a failed slot, or a slot without an outcome. -/
theorem start_cases (m : Cache) (call : Nat) (k : RootKey) :
    (m.mapped? k = none ∧ m.start call k = m.create call k) ∨
    (∃ s x, m.mapped? k = some s ∧ s.completed? = some x ∧
      m.start call k = (.hit x, { m with hits := m.hits + 1 })) ∨
    (∃ s, m.mapped? k = some s ∧ s.completed? = none ∧
      m.start call k = (m.unmap s.number).create call k) ∨
    (∃ s, m.mapped? k = some s ∧ s.outcome = none ∧
      m.start call k = (.joined s.number s.callers.isEmpty,
        m.modify s.number fun s => { s with callers := s.callers ++ [call] })) := by
  cases hm : m.mapped? k with
  | none => exact .inl ⟨rfl, by simp only [start, hm]⟩
  | some s =>
    refine .inr ?_
    match ho : s.outcome with
    | some (_, .ok x) =>
      exact .inl ⟨s, x, rfl, by simp [Slot.completed?, ho], by simp only [start, hm, ho]⟩
    | some (_, .error _) =>
      exact .inr (.inl ⟨s, rfl, by simp [Slot.completed?, ho], by simp only [start, hm, ho]⟩)
    | none => exact .inr (.inr ⟨s, rfl, ho, by simp only [start, hm, ho]⟩)

theorem mapped?_of_hit {call : Nat} {x : CachedResolution} (h : m.start call k = (.hit x, m')) :
    ∃ s, m.mapped? k = some s ∧ s.completed? = some x := by
  rcases start_cases m call k with
    ⟨-, hc⟩ | ⟨s, y, hs, completed, hc⟩ | ⟨s, -, -, hc⟩ | ⟨s, -, -, hc⟩ <;>
    cases h.symm.trans hc
  exact ⟨s, hs, completed⟩

/-- A call joins a new slot, or one that is in the map and has no outcome. -/
theorem mapped?_of_joined {call slot : Nat} {runs : Bool}
    (h : m.start call k = (.joined slot runs, m')) :
    m.next = slot ∨ ∃ s, m.mapped? k = some s ∧ s.outcome = none ∧ s.number = slot := by
  rcases start_cases m call k with
    ⟨-, hc⟩ | ⟨s, x, -, -, hc⟩ | ⟨s, -, -, hc⟩ | ⟨s, hs, running, hc⟩ <;>
    cases h.symm.trans hc
  · exact .inl rfl
  · exact .inl rfl
  · exact .inr ⟨s, hs, running, rfl⟩

theorem mem_create {call : Nat} :
    t ∈ (m.create call k).2.slots ↔ t ∈ m.slots ∨ t = ⟨m.next, k, true, [call], none⟩ := by
  simp [create]

theorem deliver_eq_some {call : Nat} {o : Outcome} (h : m.deliver call number = some (o, m')) :
    ∃ s runner, m.slot? number = some s ∧ s.outcome = some (runner, o) ∧
      m' = m.leave call number (runner = call) o := by
  unfold deliver at h
  split at h
  · simp at h
  · rename_i runner _ ho
    cases h
    obtain ⟨s, hs, ho⟩ := Option.bind_eq_some_iff.mp ho
    exact ⟨s, runner, hs, ho, rfl⟩

/-- What an invalidation leaves in the map is a resolution that does not depend on the changed
coordinate. -/
theorem mem_invalidate {c : Coordinate} (ht : t ∈ (m.invalidate c).2.slots)
    (mapped : t.mapped = true) : ∃ s ∈ m.slots, s.number = t.number ∧ s.outcome = t.outcome ∧
      ∃ x, s.completed? = some x ∧ x.dependsOn c = false := by
  obtain ⟨s, hs, rfl⟩ := List.mem_map.mp (List.mem_filter.mp ht).1
  simp only [Bool.and_eq_true, Bool.not_eq_true'] at mapped
  obtain ⟨⟨-, current⟩, sound⟩ := mapped
  refine ⟨s, hs, rfl, rfl, ?_⟩
  match ho : s.outcome with
  | none => simp [Slot.outdated, ho] at current
  | some (_, .error _) => simp [Slot.failed, ho] at sound
  | some (_, .ok x) =>
    refine ⟨x, by simp [Slot.completed?, ho], ?_⟩
    simpa [Slot.outdated, ho] using current

namespace Sound

variable {o : Outcome}

theorem sound_create (hm : m.Sound) (call : Nat) (absent : m.mapped? k = none) :
    (m.create call k).2.Sound := by
  have apart := mapped?_eq_none.mp absent
  constructor
  · intro t ht
    rcases mem_create.mp ht with ht | rfl
    · exact Nat.lt_succ_of_lt (hm.numbered t ht)
    · exact Nat.lt_succ_self m.next
  · simp only [Cache.create, List.map_append, List.map_singleton]
    refine hm.distinct.append (List.nodup_singleton _) ?_
    intro n hn hn'
    obtain ⟨s, hs, rfl⟩ := List.mem_map.mp hn
    have lt := hm.numbered s hs
    have eq := List.mem_singleton.mp hn'
    omega
  · intro s hs t ht ms mt hk
    rcases mem_create.mp hs with hs | rfl <;> rcases mem_create.mp ht with ht | rfl
    · exact hm.single s hs t ht ms mt hk
    · exact absurd hk (apart s hs ms)
    · exact absurd hk.symm (apart t ht mt)
    · rfl
  · intro t ht
    rcases mem_create.mp ht with ht | rfl
    · exact hm.signed t ht
    · simp [Slot.Signed, Slot.completed?]

/-- A new slot for a key that has none hides no other. -/
theorem create (hm : m.Sound) (call : Nat) (absent : m.mapped? k = none) :
    Succeeds keep m (m.create call k).2 := by
  refine ⟨hm.sound_create call absent, ⟨Nat.le_succ _, ?_⟩, ?_⟩
  · intro t ht
    rcases mem_create.mp ht with ht | rfl
    · exact .inl ⟨t, ht, .refl t⟩
    · exact .inr (Nat.le_refl _)
  · intro k' x hx _
    obtain ⟨s, hs, completed⟩ := get?_eq_some_iff.mp hx
    refine get?_eq_some_iff.mpr ⟨s, ?_, completed⟩
    unfold Cache.mapped? at hs ⊢
    simp only [Cache.create]
    rw [List.find?_append, hs, Option.some_or]

/-- To take a slot without a resolution out of the map. -/
theorem unmap (hm : m.Sound) (h : ∀ s ∈ m.slots, s.number = number → s.completed? = none) :
    Succeeds keep m (m.unmap number) := by
  refine (hm.succeeds_modify fun s hs hn => ?_).collect
  refine ⟨⟨rfl, rfl, by simp, fun _ => id⟩, hm.signed s hs, ?_⟩
  intro _ x hx
  simp [h s hs hn] at hx

theorem mapped?_unmap (hm : m.Sound) (hs : m.mapped? k = some s) :
    (m.unmap s.number).mapped? k = none := by
  obtain ⟨hs, mapped, hk⟩ := mem_of_mapped? hs
  rw [Cache.unmap, mapped?_collect, mapped?_eq_none]
  intro t ht mapped' hk'
  obtain ⟨u, hu, rfl⟩ := List.mem_map.mp ht
  split at mapped'
  · simp at mapped'
  · rename_i apart
    rw [if_neg apart] at hk'
    exact apart (hm.single u hu s hs mapped' mapped (hk'.trans hk.symm))

/-- A call takes nothing but a failed slot out of the map. -/
theorem start (hm : m.Sound) (call : Nat) (k : RootKey) : Succeeds keep m (m.start call k).2 := by
  rcases start_cases m call k with
    ⟨absent, hc⟩ | ⟨s, x, -, -, hc⟩ | ⟨s, hs, failed, hc⟩ | ⟨s, -, -, hc⟩
  · rw [hc]
    exact hm.create call absent
  · rw [hc]
    exact (Succeeds.refl hm).counted _ _
  · rw [hc]
    have gone : Succeeds keep m (m.unmap s.number) := by
      apply hm.unmap
      intro t ht hn
      rwa [hm.eq_of_number ht (mem_of_mapped? hs).1 hn]
    exact gone.trans (gone.sound.create call (hm.mapped?_unmap hs))
  · rw [hc]
    refine hm.succeeds_modify fun t ht _ => ?_
    exact ⟨⟨rfl, rfl, id, fun _ => id⟩, hm.signed t ht, fun mapped _ _ _ => mapped⟩

/-- A slot gets its outcome, in the map or not. -/
theorem finish (hm : m.Sound) (hs : m.slot? number = some s) (running : s.outcome = none)
    (result : Except PackageError (Resolution × Classpath)) :
    Succeeds keep m (m.finish number (outcomeOf number s.key result)) := by
  obtain ⟨hs, hn⟩ := mem_of_slot? hs
  refine hm.succeeds_modify fun t ht hn' => ?_
  cases hm.eq_of_number ht hs (hn'.trans hn.symm)
  cases hc : s.callers with
  | nil => exact .refl (hm.signed s hs)
  | cons runner callers =>
    refine ⟨⟨rfl, rfl, id, ?_⟩, ?_, fun mapped _ _ _ => mapped⟩
    · intro o ho
      simp [running] at ho
    · intro x hx
      obtain ⟨_, ho⟩ := Slot.completed?_eq_some.mp hx
      cases result with
      | error e => simp [outcomeOf, Except.map] at ho
      | ok p =>
        simp only [outcomeOf, Except.map, Option.some.injEq, Prod.mk.injEq, Except.ok.injEq] at ho
        rw [← ho.2]
        exact ⟨hn.symm, rfl⟩

/-- A caller that takes an outcome takes no resolution out of the map. -/
theorem leave (hm : m.Sound) (hs : m.slot? number = some s) {runner : Nat}
    (ho : s.outcome = some (runner, o)) (call : Nat) (ran : Bool) :
    Succeeds keep m (m.leave call number ran o) := by
  obtain ⟨hs, hn⟩ := mem_of_slot? hs
  have revised : ∀ t ∈ m.slots, t.number = number → t.Revised keep
      { t with callers := t.callers.erase call, mapped := t.mapped && o.isOk } := by
    intro t ht hn'
    cases hm.eq_of_number ht hs (hn'.trans hn.symm)
    refine ⟨⟨rfl, rfl, fun h => (Bool.and_eq_true _ _ ▸ h).1, fun _ => id⟩, hm.signed s hs, ?_⟩
    intro mapped x hx _
    obtain ⟨_, ho'⟩ := Slot.completed?_eq_some.mp hx
    cases ho.symm.trans ho'
    simp [mapped, Except.isOk, Except.toBool]
  cases ran <;> cases o <;> exact ((hm.succeeds_modify revised).counted _ _).collect

theorem cancel (hm : m.Sound) (call number : Nat) : Succeeds keep m (m.cancel call number) := by
  refine (hm.succeeds_modify fun s hs _ => ?_).collect
  exact ⟨⟨rfl, rfl, id, fun _ => id⟩, hm.signed s hs, fun mapped _ _ _ => mapped⟩

theorem invalidate (hm : m.Sound) {c : Coordinate} (apart : ∀ x, keep x → x.dependsOn c = false) :
    Succeeds keep m (m.invalidate c).2 := by
  refine Succeeds.collect (hm.succeeds_map rfl rfl fun s hs => ?_)
  refine ⟨⟨rfl, rfl, ?_, fun _ => id⟩, hm.signed s hs, ?_⟩
  · intro mapped
    simp only [Bool.and_eq_true] at mapped
    exact mapped.1.1
  · intro mapped x hx hk
    obtain ⟨_, ho⟩ := Slot.completed?_eq_some.mp hx
    simp [mapped, Slot.outdated, Slot.failed, ho, apart x hk]

theorem clear (hm : m.Sound) (none_kept : ∀ x, ¬ keep x) : Succeeds keep m m.clear := by
  refine Succeeds.collect (hm.succeeds_map rfl rfl fun s hs => ?_)
  exact ⟨⟨rfl, rfl, by simp, fun _ => id⟩, hm.signed s hs, fun _ x _ hk => absurd hk (none_kept x)⟩

end Sound

end Cache

end Depot
