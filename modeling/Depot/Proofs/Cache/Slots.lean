import Mathlib.Data.List.Nodup
import Depot.Cache

/-!
# How slots change

Whatever is done to a cache, its slots are revised one by one, those outside of the map may be
dropped, and at most one is added. A slot can leave the map and it can get an outcome, and it takes
neither back. In the map there is at most one slot for a key.
-/

namespace Depot

namespace Slot

variable {s t u : Slot} {x : CachedResolution}

theorem completed?_eq_some :
    s.completed? = some x ↔ ∃ runner, s.outcome = some (runner, .ok x) := by
  constructor
  · intro h
    unfold completed? at h
    split at h
    · rename_i runner r ho
      cases h
      exact ⟨runner, ho⟩
    · simp at h
  · rintro ⟨runner, ho⟩
    simp [completed?, ho]

/-- What may become of a slot. -/
structure Becomes (s t : Slot) : Prop where
  number : t.number = s.number
  key : t.key = s.key
  mapped : t.mapped = true → s.mapped = true
  outcome : ∀ o, s.outcome = some o → t.outcome = some o

theorem Becomes.refl (s : Slot) : s.Becomes s := ⟨rfl, rfl, id, fun _ => id⟩

theorem Becomes.trans (h : s.Becomes t) (h' : t.Becomes u) : s.Becomes u where
  number := h'.number.trans h.number
  key := h'.key.trans h.key
  mapped := fun hu => h.mapped (h'.mapped hu)
  outcome := fun o ho => h'.outcome o (h.outcome o ho)

theorem Becomes.completed? (h : s.Becomes t) (hx : s.completed? = some x) :
    t.completed? = some x := by
  obtain ⟨runner, ho⟩ := completed?_eq_some.mp hx
  exact completed?_eq_some.mpr ⟨runner, h.outcome _ ho⟩

/-- A resolution carries the number and the key of its slot. -/
def Signed (s : Slot) : Prop :=
  ∀ x, s.completed? = some x → x.number = s.number ∧ x.key = s.key

/-- What a slot may become so that resolutions of a kind stay where they are. -/
structure Revised (keep : CachedResolution → Prop) (s t : Slot) : Prop extends s.Becomes t where
  signed : t.Signed
  kept : s.mapped = true → ∀ x, s.completed? = some x → keep x → t.mapped = true

theorem Revised.refl {keep : CachedResolution → Prop} (h : s.Signed) : s.Revised keep s :=
  ⟨.refl s, h, fun hm _ _ _ => hm⟩

end Slot

namespace Cache

/-- Slots are told apart by their numbers, and in the map also by their keys. -/
structure Sound (m : Cache) : Prop where
  numbered : ∀ s ∈ m.slots, s.number < m.next
  distinct : (m.slots.map Slot.number).Nodup
  single : ∀ s ∈ m.slots, ∀ t ∈ m.slots, s.mapped = true → t.mapped = true → s.key = t.key →
    s.number = t.number
  signed : ∀ s ∈ m.slots, s.Signed

/-- Every slot of the second cache has become of one of the first, or is new. -/
structure Follows (m m' : Cache) : Prop where
  next_le : m.next ≤ m'.next
  origin : ∀ t ∈ m'.slots, (∃ s ∈ m.slots, s.Becomes t) ∨ m.next ≤ t.number

/-- The second cache follows the first, and it answers as before with resolutions of a kind. -/
structure Succeeds (keep : CachedResolution → Prop) (m m' : Cache) : Prop where
  sound : m'.Sound
  follows : m.Follows m'
  kept : ∀ k x, m.get? k = some x → keep x → m'.get? k = some x

theorem sound_empty : empty.Sound := by
  constructor <;> simp [empty]

theorem Follows.refl (m : Cache) : m.Follows m :=
  ⟨Nat.le_refl _, fun t ht => .inl ⟨t, ht, .refl t⟩⟩

theorem Follows.trans {m m' m'' : Cache} (h : m.Follows m') (h' : m'.Follows m'') :
    m.Follows m'' := by
  constructor
  · exact Nat.le_trans h.next_le h'.next_le
  · intro u hu
    rcases h'.origin u hu with ⟨t, ht, htu⟩ | new
    · rcases h.origin t ht with ⟨s, hs, hst⟩ | new
      · exact .inl ⟨s, hs, hst.trans htu⟩
      · exact .inr (htu.number ▸ new)
    · exact .inr (Nat.le_trans h.next_le new)

variable {m m' m'' : Cache} {keep : CachedResolution → Prop} {s t : Slot} {k : RootKey}
  {x : CachedResolution} {number : Nat}

theorem Succeeds.refl (h : m.Sound) : Succeeds keep m m := ⟨h, .refl m, fun _ _ hx _ => hx⟩

theorem Succeeds.trans (h : Succeeds keep m m') (h' : Succeeds keep m' m'') :
    Succeeds keep m m'' where
  sound := h'.sound
  follows := h.follows.trans h'.follows
  kept := fun k x hx hk => h'.kept k x (h.kept k x hx hk) hk

/-! ### Looking up -/

theorem mem_of_mapped? (h : m.mapped? k = some s) :
    s ∈ m.slots ∧ s.mapped = true ∧ s.key = k := by
  have hp := List.find?_some h
  simp only [Bool.and_eq_true, decide_eq_true_eq] at hp
  exact ⟨List.mem_of_find?_eq_some h, hp⟩

theorem mapped?_eq_none : m.mapped? k = none ↔ ∀ s ∈ m.slots, s.mapped = true → s.key ≠ k := by
  simp [mapped?]

theorem mem_of_slot? (h : m.slot? number = some s) : s ∈ m.slots ∧ s.number = number :=
  ⟨List.mem_of_find?_eq_some h, by simpa using List.find?_some h⟩

theorem get?_eq_some_iff : m.get? k = some x ↔ ∃ s, m.mapped? k = some s ∧ s.completed? = some x :=
  Option.bind_eq_some_iff

namespace Sound

theorem eq_of_number (h : m.Sound) (hs : s ∈ m.slots) (ht : t ∈ m.slots)
    (hn : s.number = t.number) : s = t :=
  List.inj_on_of_nodup_map h.distinct hs ht hn

/-- A slot in the map is what its key leads to. -/
theorem mapped?_key (h : m.Sound) (hs : s ∈ m.slots) (mapped : s.mapped = true) :
    m.mapped? s.key = some s := by
  cases hm : m.mapped? s.key with
  | none => exact absurd rfl (mapped?_eq_none.mp hm s hs mapped)
  | some t =>
    obtain ⟨ht, mapped', hk⟩ := mem_of_mapped? hm
    rw [h.eq_of_number ht hs (h.single t ht s hs mapped' mapped hk)]

end Sound

/-! ### Dropping and revising slots -/

/-- Nobody finds a slot that is dropped. -/
theorem mapped?_collect (m : Cache) (k : RootKey) : m.collect.mapped? k = m.mapped? k := by
  unfold mapped? collect
  simp only
  rw [List.find?_filter]
  congr 1
  funext s
  cases hs : s.mapped <;> simp [Slot.reachable, hs]

theorem Succeeds.collect (h : Succeeds keep m m') : Succeeds keep m m'.collect := by
  have mem : ∀ t ∈ m'.collect.slots, t ∈ m'.slots := fun t ht => (List.mem_filter.mp ht).1
  refine ⟨⟨?_, ?_, ?_, ?_⟩, ⟨h.follows.next_le, ?_⟩, ?_⟩
  · exact fun t ht => h.sound.numbered t (mem t ht)
  · exact h.sound.distinct.sublist (List.filter_sublist.map Slot.number)
  · exact fun t ht u hu => h.sound.single t (mem t ht) u (mem u hu)
  · exact fun t ht => h.sound.signed t (mem t ht)
  · exact fun t ht => h.follows.origin t (mem t ht)
  · intro k x hx hk
    rw [get?, mapped?_collect]
    exact h.kept k x hx hk

/-- The counters are of no account here. -/
theorem Succeeds.counted (h : Succeeds keep m m') (hits misses : Nat) :
    Succeeds keep m { m' with hits, misses } where
  sound := ⟨h.sound.numbered, h.sound.distinct, h.sound.single, h.sound.signed⟩
  follows := ⟨h.follows.next_le, h.follows.origin⟩
  kept := h.kept

section

variable {f : Slot → Slot} (next_eq : m'.next = m.next) (slots_eq : m'.slots = m.slots.map f)
  (revised : ∀ s ∈ m.slots, s.Revised keep (f s))

include next_eq slots_eq revised

theorem Follows.of_map : m.Follows m' := by
  refine ⟨Nat.le_of_eq next_eq.symm, ?_⟩
  rw [slots_eq]
  intro t ht
  obtain ⟨s, hs, rfl⟩ := List.mem_map.mp ht
  exact .inl ⟨s, hs, (revised s hs).toBecomes⟩

theorem Sound.of_map (hm : m.Sound) : m'.Sound := by
  constructor <;> rw [slots_eq]
  · intro t ht
    obtain ⟨s, hs, rfl⟩ := List.mem_map.mp ht
    rw [(revised s hs).number, next_eq]
    exact hm.numbered s hs
  · have numbers : (m.slots.map f).map Slot.number = m.slots.map Slot.number := by
      rw [List.map_map]
      exact List.map_congr_left fun s hs => (revised s hs).number
    rw [numbers]
    exact hm.distinct
  · intro t ht u hu mt mu hk
    obtain ⟨s, hs, rfl⟩ := List.mem_map.mp ht
    obtain ⟨r, hr, rfl⟩ := List.mem_map.mp hu
    have hs' := revised s hs
    have hr' := revised r hr
    rw [hs'.number, hr'.number]
    rw [hs'.key, hr'.key] at hk
    exact hm.single s hs r hr (hs'.mapped mt) (hr'.mapped mu) hk
  · intro t ht
    obtain ⟨s, hs, rfl⟩ := List.mem_map.mp ht
    exact (revised s hs).signed

/-- What may be done to the slots one by one. -/
theorem Sound.succeeds_map (hm : m.Sound) : Succeeds keep m m' := by
  have sound := hm.of_map next_eq slots_eq revised
  refine ⟨sound, .of_map next_eq slots_eq revised, fun k x hx hk => ?_⟩
  obtain ⟨s, found, completed⟩ := get?_eq_some_iff.mp hx
  obtain ⟨hs, mapped, rfl⟩ := mem_of_mapped? found
  have hs' := revised s hs
  have mem : f s ∈ m'.slots := slots_eq ▸ List.mem_map_of_mem hs
  have found' := sound.mapped?_key mem (hs'.kept mapped x completed hk)
  rw [hs'.key] at found'
  exact get?_eq_some_iff.mpr ⟨f s, found', hs'.completed? completed⟩

end

/-- What may be done to one slot. -/
theorem Sound.succeeds_modify (hm : m.Sound) {g : Slot → Slot}
    (revised : ∀ s ∈ m.slots, s.number = number → s.Revised keep (g s)) :
    Succeeds keep m (m.modify number g) := by
  refine hm.succeeds_map rfl rfl fun s hs => ?_
  split
  · exact revised s hs (by assumption)
  · exact .refl (hm.signed s hs)

end Cache

end Depot
