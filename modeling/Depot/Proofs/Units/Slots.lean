import Mathlib.Data.List.Nodup
import Depot.Units

/-!
# Slots of units

In the map there is at most one slot for a key. What each operation does to the units is said
through that map: an eviction empties one place, and a call for a resolution fills one.
-/

namespace Depot

namespace UnitSlot

/-- What a slot answers if the files of its classpath are loaded with that result. -/
def answer (load : Except LoadError Bundle) (s : UnitSlot) : Except LoadError LoadedUnit :=
  match s.loaded with
  | some v => .ok v
  | none => load.map (LoadedUnit.mk s.number)

/-- The slot after that. -/
def fill (load : Except LoadError Bundle) (s : UnitSlot) : UnitSlot :=
  { s with loaded := (s.answer load).toOption }

variable {load : Except LoadError Bundle} {s : UnitSlot} {v : LoadedUnit}

theorem answer_of_loaded (h : s.loaded = some v) : s.answer load = .ok v := by
  simp only [answer, h]

theorem answer_of_empty (h : s.loaded = none) :
    s.answer load = load.map (LoadedUnit.mk s.number) := by
  simp only [answer, h]

theorem loaded_fill : (s.fill load).loaded = some v ↔ s.answer load = .ok v := by
  unfold fill
  cases s.answer load <;> simp [Except.toOption]

/-- A unit was there, or it has just been loaded. -/
theorem loaded_fill_cases (h : (s.fill load).loaded = some v) :
    s.loaded = some v ∨ s.loaded = none ∧ ∃ bundle, load = .ok bundle ∧ v = ⟨s.number, bundle⟩ := by
  have answered := loaded_fill.mp h
  match ho : s.loaded, load with
  | some w, _ =>
    rw [answer_of_loaded ho] at answered
    cases answered
    exact .inl rfl
  | none, .error e =>
    rw [answer_of_empty ho] at answered
    cases answered
  | none, .ok bundle =>
    rw [answer_of_empty ho] at answered
    cases answered
    exact .inr ⟨rfl, bundle, rfl, rfl⟩

theorem fill_of_error (h : s.loaded = none) (e : LoadError) : s.fill (.error e) = s := by
  unfold fill
  rw [answer_of_empty h, Except.map, Except.toOption, ← h]

theorem fill_of_loaded (h : s.loaded = some v) : s.fill load = s := by
  unfold fill
  rw [answer_of_loaded h, Except.toOption, ← h]

end UnitSlot

namespace Units

/-- Slots are told apart by their numbers, and in the map also by their keys. -/
structure Sound (u : Units) : Prop where
  numbered : ∀ s ∈ u.slots, s.number < u.next
  distinct : (u.slots.map UnitSlot.number).Nodup
  single : ∀ s ∈ u.slots, ∀ t ∈ u.slots, s.mapped = true → t.mapped = true → s.key = t.key →
    s.number = t.number

variable {u u' : Units} {k key : RootKey} {s t : UnitSlot} {r : CachedResolution}
  {load : Except LoadError Bundle}

theorem sound_empty : empty.Sound := by constructor <;> simp [empty]

theorem mem_of_mapped? (h : u.mapped? k = some s) :
    s ∈ u.slots ∧ s.mapped = true ∧ s.key = k := by
  have hp := List.find?_some h
  simp only [Bool.and_eq_true, decide_eq_true_eq] at hp
  exact ⟨List.mem_of_find?_eq_some h, hp⟩

theorem mapped?_eq_none : u.mapped? k = none ↔ ∀ s ∈ u.slots, s.mapped = true → s.key ≠ k := by
  simp [mapped?]

theorem mapped?_settle (u : Units) (k : RootKey) : u.settle.mapped? k = u.mapped? k := by
  unfold mapped? settle
  simp only
  rw [List.find?_filter]
  congr 1
  funext s
  cases s.mapped <;> simp

theorem mapped?_evict (u : Units) (k key : RootKey) :
    (u.evict k).2.mapped? key = if key = k then none else u.mapped? key := by
  unfold mapped? evict
  rw [List.find?_map]
  by_cases here : key = k
  · subst here
    rw [if_pos rfl, Option.map_eq_none_iff, List.find?_eq_none]
    simp
  · have same : ∀ s : UnitSlot, (s.mapped && decide (s.key ≠ k) && decide (s.key = key)) =
        (s.mapped && decide (s.key = key)) := by
      intro s
      by_cases hk : s.key = key <;> simp [hk, here]
    rw [if_neg here]
    refine (congrArg (fun p => (u.slots.find? p).map _) (funext same)).trans ?_
    cases found : u.slots.find? fun s => s.mapped && s.key = key with
    | none => rfl
    | some s =>
      obtain ⟨-, mapped, rfl⟩ := mem_of_mapped? found
      simp [here]

theorem mapped?_create (absent : u.mapped? r.key = none) :
    (u.create r).2.mapped? key = if key = r.key then some (u.create r).1 else u.mapped? key := by
  unfold mapped? create
  rw [List.find?_append]
  by_cases here : key = r.key
  · subst here
    unfold mapped? at absent
    simp [absent]
  · simp [here, Ne.symm here]

namespace Sound

theorem eq_of_number (h : u.Sound) (hs : s ∈ u.slots) (ht : t ∈ u.slots)
    (hn : s.number = t.number) : s = t :=
  List.inj_on_of_nodup_map h.distinct hs ht hn

theorem slot?_number (h : u.Sound) (hs : s ∈ u.slots) : u.slot? s.number = some s := by
  cases found : u.slot? s.number with
  | none =>
    simp only [slot?, List.find?_eq_none, decide_eq_true_eq] at found
    exact absurd rfl (found s hs)
  | some t =>
    have number : t.number = s.number := by simpa using List.find?_some found
    rw [h.eq_of_number (List.mem_of_find?_eq_some found) hs number]

/-- What leaves numbers and keys as they are and brings nothing back into the map. -/
theorem of_map (h : u.Sound) {f : UnitSlot → UnitSlot} (slots_eq : u'.slots = u.slots.map f)
    (next_eq : u'.next = u.next) (number_eq : ∀ s, (f s).number = s.number)
    (key_eq : ∀ s, (f s).key = s.key) (mapped : ∀ s, (f s).mapped = true → s.mapped = true) :
    u'.Sound := by
  constructor <;> rw [slots_eq]
  · intro t ht
    obtain ⟨s, hs, rfl⟩ := List.mem_map.mp ht
    rw [number_eq, next_eq]
    exact h.numbered s hs
  · have numbers : (u.slots.map f).map UnitSlot.number = u.slots.map UnitSlot.number := by
      rw [List.map_map]
      exact List.map_congr_left fun s _ => number_eq s
    rw [numbers]
    exact h.distinct
  · intro t ht t' ht' mt mt' hk
    obtain ⟨s, hs, rfl⟩ := List.mem_map.mp ht
    obtain ⟨s', hs', rfl⟩ := List.mem_map.mp ht'
    rw [number_eq, number_eq]
    rw [key_eq, key_eq] at hk
    exact h.single s hs s' hs' (mapped s mt) (mapped s' mt') hk

theorem settle (h : u.Sound) : u.settle.Sound where
  numbered := fun s hs => h.numbered s (List.mem_filter.mp hs).1
  distinct := h.distinct.sublist (List.filter_sublist.map UnitSlot.number)
  single := fun s hs t ht => h.single s (List.mem_filter.mp hs).1 t (List.mem_filter.mp ht).1

theorem evict (h : u.Sound) (k : RootKey) : (u.evict k).2.Sound :=
  h.of_map rfl rfl (fun _ => rfl) (fun _ => rfl) fun _ mapped => (Bool.and_eq_true_iff.mp mapped).1

theorem create (h : u.Sound) (absent : u.mapped? r.key = none) : (u.create r).2.Sound := by
  have mem : ∀ s ∈ (u.create r).2.slots, s ∈ u.slots ∨ s = (u.create r).1 := fun s hs => by
    simpa [Units.create] using hs
  refine ⟨fun s hs => ?_, ?_, fun s hs t ht mapped mapped' key => ?_⟩
  · rcases mem s hs with hs | rfl
    · exact Nat.lt_succ_of_lt (h.numbered s hs)
    · exact Nat.lt_succ_self _
  · have new : (u.create r).2.slots.map UnitSlot.number = u.slots.map UnitSlot.number ++ [u.next] := by
      simp [Units.create]
    rw [new]
    refine h.distinct.append (List.nodup_singleton _) ?_
    intro number old same
    obtain ⟨s, hs, rfl⟩ := List.mem_map.mp old
    exact absurd (List.mem_singleton.mp same) (Nat.ne_of_lt (h.numbered s hs))
  · rcases mem s hs with hs | rfl <;> rcases mem t ht with ht | rfl
    · exact h.single s hs t ht mapped mapped' key
    · exact absurd key (mapped?_eq_none.mp absent s hs mapped)
    · exact absurd key.symm (mapped?_eq_none.mp absent t ht mapped')
    · rfl

theorem finish (h : u.Sound) (number : Nat) (load : Except LoadError Bundle) :
    (u.finish number load).2.Sound := by
  unfold Units.finish
  split
  · exact h
  · exact h
  · refine h.of_map rfl rfl (fun s => ?_) (fun s => ?_) fun s => ?_ <;> split <;> first | rfl | exact id

end Sound

/-- A call for a resolution gets a slot that is for it, whatever was in the map before. It is the
slot that was there, if that one is for the same resolution, and a new one if not. -/
structure Starts (u : Units) (r : CachedResolution) (s : UnitSlot) (u' : Units) : Prop where
  sound : u'.Sound
  mapped? : ∀ key, u'.mapped? key = if key = r.key then some s else u.mapped? key
  key : s.key = r.key
  source : s.source = r.number
  found : (u.mapped? r.key = some s ∧ u'.next = u.next) ∨
    (∀ t, u.mapped? r.key = some t → t.source ≠ r.number) ∧ s.number = u.next ∧
      s.loaded = none ∧ u'.next = u.next + 1

theorem Sound.starts_create (h : u.Sound) (absent : u.mapped? r.key = none) :
    Starts u r (u.create r).1 (u.create r).2 where
  sound := h.create absent
  mapped? := fun _ => mapped?_create absent
  key := rfl
  source := rfl
  found := .inr ⟨by simp [absent], rfl, rfl, rfl⟩

theorem Sound.start (h : u.Sound) (r : CachedResolution) :
    Starts u r (u.start r).1 (u.start r).2 := by
  unfold Units.start
  cases found : u.mapped? r.key with
  | none => exact h.starts_create found
  | some s =>
    by_cases source : s.source = r.number
    · simp only [source, if_true]
      refine ⟨h, fun key => ?_, (mem_of_mapped? found).2.2, source, .inl ⟨found, rfl⟩⟩
      by_cases here : key = r.key
      · rw [if_pos here, here, found]
      · rw [if_neg here]
    · simp only [source, if_false]
      have absent : (u.evict r.key).2.mapped? r.key = none := by rw [mapped?_evict, if_pos rfl]
      have new := (h.evict r.key).starts_create absent
      refine ⟨new.sound, fun key => ?_, rfl, rfl, .inr ⟨?_, rfl, rfl, rfl⟩⟩
      · by_cases here : key = r.key
        · rw [new.mapped?, if_pos here, if_pos here]
        · rw [new.mapped?, if_neg here, if_neg here, mapped?_evict, if_neg here]
      · rintro t found'
        cases found.symm.trans found'
        exact source

/-- The slot of a call answers and is filled, and the others stay as they are. -/
theorem Sound.finish_eq (h : u.Sound) (found : u.mapped? k = some s) (load : Except LoadError Bundle) :
    (u.finish s.number load).1 = s.answer load ∧
      (u.finish s.number load).2.next = u.next ∧
      ∀ key, (u.finish s.number load).2.mapped? key =
        if key = k then some (s.fill load) else u.mapped? key := by
  obtain ⟨hs, mapped, rfl⟩ := mem_of_mapped? found
  have stays : ∀ key, u.mapped? key = if key = s.key then some s else u.mapped? key := by
    intro key
    by_cases here : key = s.key
    · rw [if_pos here, here, found]
    · rw [if_neg here]
  unfold Units.finish
  rw [h.slot?_number hs, Option.bind_some]
  match ho : s.loaded, load with
  | some v, load =>
    refine ⟨(UnitSlot.answer_of_loaded ho).symm, rfl, fun key => ?_⟩
    rw [UnitSlot.fill_of_loaded ho]
    exact stays key
  | none, .error e =>
    refine ⟨by rw [UnitSlot.answer_of_empty ho]; rfl, rfl, fun key => ?_⟩
    rw [UnitSlot.fill_of_error ho]
    exact stays key
  | none, .ok b =>
    refine ⟨by rw [UnitSlot.answer_of_empty ho]; rfl, rfl, fun key => ?_⟩
    have filled : s.fill (.ok b) = { s with loaded := some ⟨s.number, b⟩ } := by
      unfold UnitSlot.fill
      rw [UnitSlot.answer_of_empty ho]
      rfl
    have looked : Units.mapped? { u with
        slots := u.slots.map fun t =>
          if t.number = s.number then { t with loaded := some ⟨s.number, b⟩ } else t } key =
        (u.mapped? key).map fun t =>
          if t.number = s.number then { t with loaded := some ⟨s.number, b⟩ } else t := by
      unfold mapped?
      rw [List.find?_map]
      congr 2
      funext t
      rw [Function.comp_apply]
      split <;> rfl
    rw [filled]
    refine looked.trans ?_
    by_cases here : key = s.key
    · rw [if_pos here, here, found, Option.map_some, if_pos rfl]
    · rw [if_neg here]
      cases found' : u.mapped? key with
      | none => rfl
      | some t =>
        obtain ⟨ht, -, rfl⟩ := mem_of_mapped? found'
        have other : t.number ≠ s.number := fun same => here (by rw [h.eq_of_number ht hs same])
        rw [Option.map_some, if_neg other]

end Units

end Depot
