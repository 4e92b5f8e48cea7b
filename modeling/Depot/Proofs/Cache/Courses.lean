import Depot.Proofs.Cache.Operations

/-!
# Two courses of events

The same is asked of two caches, of which the first has had one more call. That call runs a slot
that it has opened, until it is given up. Whatever comes in both, the slots of the first are those
of the second under other numbers. Only the slot of that call may be left over, where nobody waits:
if somebody asks for its key, it is joined again in the first and opened anew in the second.
-/

namespace Depot

open Slot

namespace Cache

variable (m : Cache) (call number : Nat) (ran : Bool) (o : Outcome)

theorem next_leave : (m.leave call number ran o).next = m.next := by cases ran <;> rfl

theorem hits_leave : (m.leave call number ran o).hits = m.hits + if ran then 0 else 1 := by
  cases ran <;> rfl

theorem misses_leave : (m.leave call number ran o).misses = m.misses + if ran then 1 else 0 := by
  cases ran <;> rfl

end Cache

namespace Traffic

variable {c n m : Nat} {k asked : RootKey} {left : Bool} {r s : Slot} {t u : Traffic}

/-! ### A slot is opened -/

/-- The cache in which a slot is opened for a key: a failed slot that is still there is gone. -/
def tidied (t : Traffic) (k : RootKey) : Cache :=
  (t.cache.mapped? k).elim t.cache fun s => t.cache.unmap s.number

theorem enter_of_fresh (fresh : ∀ s, t.cache.mapped? k = some s → s.failed = true) :
    t.enter k = t.opened k (t.tidied k) := by
  cases found : t.cache.mapped? k with
  | none => simp only [enter, Cache.start, found, opened, tidied, Option.elim, Cache.create]
  | some s =>
    have failed := fresh s found
    cases ho : s.outcome with
    | none => simp [Slot.failed, ho] at failed
    | some p =>
      obtain ⟨runner, _ | result⟩ := p
      · simp only [enter, Cache.start, found, ho, opened, tidied, Option.elim, Cache.create]
      · simp [Slot.failed, ho] at failed

theorem enter_of_running (found : t.cache.mapped? k = some s) (running : s.outcome = none) :
    t.enter k = { t with
      cache := t.cache.modify s.number fun s => { s with callers := s.callers ++ [t.calls] }
      calls := t.calls + 1
      waiting := t.waiting ++ [(t.calls, s.number)] } := by
  simp only [enter, Cache.start, found, running]

theorem tidied_fields (t : Traffic) (k : RootKey) : (t.tidied k).next = t.cache.next ∧
    (t.tidied k).hits = t.cache.hits ∧ (t.tidied k).misses = t.cache.misses ∧
    (t.tidied k).invalidations = t.cache.invalidations := by
  unfold tidied
  cases t.cache.mapped? k with
  | none => exact ⟨rfl, rfl, rfl, rfl⟩
  | some s => exact ⟨rfl, rfl, rfl, rfl⟩

/-- A failed slot that leaves the map makes no difference to what can be seen. -/
theorem seen_tidied (sound : t.Sound) (fresh : ∀ s, t.cache.mapped? k = some s → s.failed = true)
    {f : Slot → Slot} (shown : ∀ s, ((f s).without c).reachable = true → s.reachable = true)
    (blind : ∀ s, s.failed = true → (f { s with mapped := false }).without c = (f s).without c) :
    seen c ((t.tidied k).slots.map f) = seen c (t.cache.slots.map f) := by
  unfold tidied
  cases found : t.cache.mapped? k with
  | none => rfl
  | some s =>
    show seen c (((t.cache.slots.map _).filter reachable).map f) = _
    rw [seen_map_filter shown, List.map_map]
    refine seen_map_congr fun r hr => ?_
    rw [Function.comp_apply]
    split
    · rename_i number
      obtain rfl := sound.cache.eq_of_number hr (Cache.mem_of_mapped? found).1 number
      exact blind r (fresh r found)
    · rfl

theorem alike_tidied_left {ι ρ : Nat → Nat} {extra us : List Slot} (sound : t.Sound)
    (fresh : ∀ s, t.cache.mapped? k = some s → s.failed = true)
    (h : Alike c ι ρ extra t.cache.slots us) : Alike c ι ρ extra (t.tidied k).slots us := by
  have same := seen_tidied (f := id) (c := c) sound fresh (fun _ => reachable_of_without)
    fun _ => without_unmap
  rw [List.map_id, List.map_id] at same
  unfold Alike at h ⊢
  rwa [same]

theorem alike_tidied_right {ι ρ : Nat → Nat} {extra ss : List Slot} (sound : u.Sound)
    (fresh : ∀ s, u.cache.mapped? k = some s → s.failed = true)
    (h : Alike c ι ρ extra ss u.cache.slots) : Alike c ι ρ extra ss (u.tidied k).slots := by
  have same := seen_tidied (f := Slot.rename ι ρ) (c := c) sound fresh
    (fun s shown => by simpa [reachable, rename] using reachable_of_without shown)
    fun s failed => without_unmap (failed_rename.trans failed)
  unfold Alike at h ⊢
  rwa [same]

/-! ### Two courses of events -/

/-- What stays of a call that was given up: a slot that nobody waits on. -/
def remnant (n : Nat) (k : RootKey) : Slot := ⟨n, k, true, [], none⟩

def leftover (n : Nat) (k : RootKey) (left : Bool) : List Slot := if left then [remnant n k] else []

theorem seen_map_leftover {f : Slot → Slot} (same : left = true → f (remnant n k) = remnant n k) :
    seen c ((leftover n k left).map f) = leftover n k left := by
  cases left with
  | false => rfl
  | true =>
    simp only [leftover, if_true, List.map_cons, List.map_nil, same rfl]
    rfl

/-- One slot is the other under other numbers, as far as it can be seen. -/
def Mirrored (c n m : Nat) (r s : Slot) : Prop :=
  r.without c = (s.rename (passing c) (shifted n m)).without c

namespace Mirrored

variable (h : Mirrored c n m r s)
include h

theorem number : r.number = shifted n m s.number := congrArg Slot.number h

theorem key : r.key = s.key := by
  have same := congrArg Slot.key h
  exact same

theorem outcome : r.outcome =
    s.outcome.map fun p => (passing c p.1, p.2.map (CachedResolution.renumber (shifted n m))) :=
  congrArg Slot.outcome h

theorem failed : r.failed = s.failed := by
  have same := congrArg Slot.failed h
  simpa using same

theorem completed? : r.completed? = s.completed?.map (CachedResolution.renumber (shifted n m)) := by
  have same := congrArg Slot.completed? h
  simpa using same

theorem callers : r.callers.filter (· ≠ c) = s.callers.map (passing c) := by
  have same := congrArg Slot.callers h
  refine Eq.trans same (List.filter_eq_self.mpr fun i hi => ?_)
  obtain ⟨j, -, rfl⟩ := List.mem_map.mp hi
  exact decide_eq_true (passing_ne c j)

theorem mapped_iff (unfailed : s.failed = false) : r.mapped = s.mapped := by
  have same := congrArg Slot.mapped h
  simpa [without, h.failed, unfailed] using same

end Mirrored

/-- Two courses of events, of which the first has one more call: the numbers of calls and slots
are others, and there may be a slot left that nobody waits on. -/
structure Mirrors (c n m : Nat) (k : RootKey) (left : Bool) (t u : Traffic) : Prop where
  slots : Alike c (passing c) (shifted n m) (leftover n k left)
    t.cache.slots u.cache.slots
  waiting : (t.waiting.filter fun p => p.1 ≠ c) =
    u.waiting.map (Prod.map (passing c) (shifted n m))
  receipts : t.receipts = u.receipts.map (Receipt.rename (passing c) (shifted n m))
  calls : t.calls = u.calls + 1
  late : c ≤ u.calls
  hits : t.cache.hits = u.cache.hits
  misses : t.cache.misses = u.cache.misses

/-- The first course is one slot ahead, or it has joined its first slot again when the second one
opened the slot `m`. -/
structure Paired (n m : Nat) (left : Bool) (t u : Traffic) : Prop where
  le : n ≤ m
  next : (u.cache.next = m ∧ t.cache.next = m + 1) ∨
    m < u.cache.next ∧ t.cache.next = u.cache.next ∧ left = false

namespace Paired

variable (h : Paired n m left t u)
include h

/-- A slot is opened on both sides. -/
theorem exists_next : ∃ m', n ≤ m' ∧ shifted n m' u.cache.next = t.cache.next ∧
    (∀ i < u.cache.next, shifted n m i = shifted n m' i) ∧
    ∀ t' u', t'.cache.next = t.cache.next + 1 → u'.cache.next = u.cache.next + 1 →
      Paired n m' left t' u' := by
  have le := h.le
  rcases h.next with ⟨first, ahead⟩ | ⟨later, even, gone⟩
  · refine ⟨m + 1, by omega, ?_, fun i hi => (shifted_succ (first ▸ hi)).symm, fun t' u' ht hu =>
      ⟨by omega, .inl (by omega)⟩⟩
    rw [first, shifted_last le, ahead]
  · refine ⟨m, le, ?_, fun _ _ => rfl, fun t' u' ht hu => ⟨le, .inr ⟨by omega, by omega, gone⟩⟩⟩
    rw [shifted_of_gt le later, even]

theorem congr {t' u' : Traffic} (next : t'.cache.next = t.cache.next)
    (next' : u'.cache.next = u.cache.next) : Paired n m left t' u' := by
  refine ⟨h.le, ?_⟩
  rw [next, next']
  exact h.next

theorem lost {t' u' : Traffic} (next : t'.cache.next = t.cache.next)
    (next' : u'.cache.next = u.cache.next) : Paired n m false t' u' := by
  refine ⟨h.le, ?_⟩
  rw [next, next']
  exact h.next.imp id fun ⟨later, even, _⟩ => ⟨later, even, rfl⟩

/-- Nobody in the second course waits on the counterpart of the remnant. -/
theorem shifted_ne (here : left = true) {i : Nat} (hi : i < u.cache.next) : shifted n m i ≠ n := by
  rcases h.next with ⟨first, -⟩ | ⟨-, -, gone⟩
  · exact Traffic.shifted_ne (first ▸ hi)
  · rw [here] at gone
    cases gone

end Paired

/-- As long as a call waits, there is no outcome for it. -/
def Held (c : Nat) (t : Traffic) : Prop := ∀ s ∈ t.cache.slots, c ∈ s.callers → s.outcome = none

namespace Mirrors

variable (h : Mirrors c n m k left t u) (ht : t.Orderly) (hu : u.Orderly)

/-! ### What the two know of each other -/

include h in
/-- A slot in the map that has not failed has a counterpart. -/
theorem exists_mapped (ht : t.Orderly) (found : u.cache.mapped? asked = some s)
    (unfailed : s.failed = false) : ∃ r, t.cache.mapped? asked = some r ∧ Mirrored c n m r s := by
  obtain ⟨hs, mapped, rfl⟩ := Cache.mem_of_mapped? found
  obtain ⟨r, hr, same⟩ := h.slots.exists_left hs
    (reachable_without mapped (failed_rename.trans unfailed))
  have same : Mirrored c n m r s := same
  refine ⟨r, ?_, same⟩
  rw [← same.key]
  exact ht.sound.cache.mapped?_key hr ((same.mapped_iff unfailed).trans mapped)

include h in
/-- A slot in the map that has not failed is the counterpart of another or the remnant. -/
theorem of_mapped (hu : u.Orderly) (found : t.cache.mapped? asked = some r)
    (unfailed : r.failed = false) :
    (∃ s, u.cache.mapped? asked = some s ∧ Mirrored c n m r s) ∨
      left = true ∧ asked = k ∧ r.without c = remnant n k := by
  obtain ⟨hr, mapped, rfl⟩ := Cache.mem_of_mapped? found
  rcases h.slots.exists_right hr (reachable_without mapped unfailed) with
    listed | ⟨s, hs, same⟩
  · cases left with
    | false => cases listed
    | true =>
      have same : r.without c = remnant n k := List.mem_singleton.mp listed
      exact .inr ⟨rfl, congrArg Slot.key same, same⟩
  · have same : Mirrored c n m r s := same
    have mapped' : s.mapped = true := (same.mapped_iff (same.failed ▸ unfailed)).symm.trans mapped
    refine .inl ⟨s, ?_, same⟩
    rw [same.key]
    exact hu.sound.cache.mapped?_key hs mapped'

include h in
/-- The remnant is in the map. -/
theorem mapped?_remnant (ht : t.Orderly) (here : left = true) :
    ∃ r, t.cache.mapped? k = some r ∧ r.without c = remnant n k := by
  subst here
  have mem : remnant n k ∈ seen c t.cache.slots :=
    h.slots.mem_iff.mpr (List.mem_append_left _ List.mem_cons_self)
  obtain ⟨⟨r, hr, same⟩, -⟩ := mem_seen.mp mem
  have mapped : (r.mapped && !r.failed) = true := congrArg Slot.mapped same
  refine ⟨r, ?_, same⟩
  rw [show k = r.key from (congrArg Slot.key same).symm]
  exact ht.sound.cache.mapped?_key hr (Bool.and_eq_true_iff.mp mapped).1

include h in
theorem get? (ht : t.Orderly) (hu : u.Orderly) (asked : RootKey) :
    t.cache.get? asked = (u.cache.get? asked).map (CachedResolution.renumber (shifted n m)) := by
  cases found : u.cache.get? asked with
  | some x =>
    obtain ⟨s, mapped, completed⟩ := Cache.get?_eq_some_iff.mp found
    obtain ⟨r, mapped', same⟩ := h.exists_mapped ht mapped
      (failed_of_completed? (by simp [completed]))
    exact Cache.get?_eq_some_iff.mpr ⟨r, mapped', by simp [same.completed?, completed]⟩
  | none =>
    cases found' : t.cache.get? asked with
    | none => rfl
    | some x =>
      obtain ⟨r, mapped, completed⟩ := Cache.get?_eq_some_iff.mp found'
      rcases h.of_mapped hu mapped (failed_of_completed? (by simp [completed])) with
        ⟨s, mapped', same⟩ | ⟨-, -, same⟩
      · rw [same.completed?] at completed
        obtain ⟨y, completed', -⟩ := Option.map_eq_some_iff.mp completed
        cases found.symm.trans (Cache.get?_eq_some_iff.mpr ⟨s, mapped', completed'⟩)
      · have gone := congrArg Slot.completed? same
        rw [completed?_without, completed] at gone
        cases gone

/-! ### What comes next -/

include h in
theorem passing_calls : passing c u.calls = t.calls := by
  rw [passing_of_le h.late, h.calls]

include h in
theorem waiting_append (slot : Nat) :
    ((t.waiting ++ [(t.calls, shifted n m slot)]).filter fun p => p.1 ≠ c) =
      (u.waiting ++ [(u.calls, slot)]).map (Prod.map (passing c) (shifted n m)) := by
  have other : t.calls ≠ c := h.passing_calls ▸ passing_ne c u.calls
  rw [List.filter_append, h.waiting, List.map_append]
  simp [other, h.passing_calls]

include h in
/-- The numbers can be changed for those to come. -/
theorem renumbered (hu : u.Orderly) {m' : Nat}
    (same : ∀ i < u.cache.next, shifted n m i = shifted n m' i) : Mirrors c n m' k left t u where
  slots := h.slots.congr fun s hs => rename_congr (hu.sound.cache.signed s hs)
    (same _ (hu.sound.cache.numbered s hs))
  waiting := by
    rw [h.waiting]
    refine List.map_congr_left fun p hp => ?_
    simp [Prod.map, same _ (hu.slot_lt hp)]
  receipts := by
    rw [h.receipts]
    exact List.map_congr_left fun a ha =>
      Receipt.rename_congr (hu.sound.receipts a ha).2 (same _ (hu.receipts a ha))
  calls := h.calls
  late := h.late
  hits := h.hits
  misses := h.misses

include h in
/-- Both open a slot. -/
theorem opened (ht : t.Orderly) (hu : u.Orderly)
    (fresh : ∀ s, t.cache.mapped? asked = some s → s.failed = true)
    (fresh' : ∀ s, u.cache.mapped? asked = some s → s.failed = true)
    (next : shifted n m u.cache.next = t.cache.next) :
    Mirrors c n m k left (t.opened asked (t.tidied asked)) (u.opened asked (u.tidied asked)) := by
  obtain ⟨next_eq, hits, misses, -⟩ := t.tidied_fields asked
  obtain ⟨next_eq', hits', misses', -⟩ := u.tidied_fields asked
  have slots := (alike_tidied_left ht.sound fresh
    (alike_tidied_right hu.sound fresh' h.slots)).append
    ⟨(u.tidied asked).next, asked, true, [u.calls], none⟩
  have new : Slot.rename (passing c) (shifted n m)
      ⟨(u.tidied asked).next, asked, true, [u.calls], none⟩ =
      ⟨(t.tidied asked).next, asked, true, [t.calls], none⟩ := by
    simp [rename, h.passing_calls, next_eq, next_eq', next]
  rw [new] at slots
  refine ⟨slots, ?_, h.receipts, congrArg (· + 1) h.calls, Nat.le_succ_of_le h.late, ?_, ?_⟩
  · have waiting := h.waiting_append u.cache.next
    simpa only [Traffic.opened, next_eq, next_eq', ← next] using waiting
  · exact hits.trans (h.hits.trans hits'.symm)
  · exact misses.trans (h.misses.trans misses'.symm)

include h in
/-- Both join a slot. -/
theorem joined (ht : t.Orderly) (hu : u.Orderly) (paired : Paired n m left t u)
    (found : u.cache.mapped? asked = some s) (running : s.outcome = none) :
    Mirrors c n m k left (t.enter asked) (u.enter asked) ∧
      Paired n m left (t.enter asked) (u.enter asked) := by
  have unfailed : s.failed = false := by simp [Slot.failed, running]
  obtain ⟨r, found', same⟩ := h.exists_mapped ht found unfailed
  have running' : r.outcome = none := by simp [same.outcome, running]
  have injective : (shifted n m).Injective := shifted_injective paired.le
  obtain ⟨hs, mapped, -⟩ := Cache.mem_of_mapped? found
  obtain ⟨hr, mapped', -⟩ := Cache.mem_of_mapped? found'
  have other : left = true → n ≠ shifted n m s.number := fun here =>
    (paired.shifted_ne here (hu.sound.cache.numbered s hs)).symm
  rw [enter_of_running found running, enter_of_running found' running', same.number]
  refine ⟨⟨?_, h.waiting_append s.number, h.receipts, congrArg (· + 1) h.calls,
    Nat.le_succ_of_le h.late, h.hits, h.misses⟩, paired.congr rfl rfl⟩
  dsimp only
  rw [slots_modify_callers _ _ (· ++ [t.calls]), slots_modify_callers _ _ (· ++ [u.calls]),
    ← h.passing_calls]
  have slots := h.slots.join u.calls s.number injective (fun r' hr' number => ?_)
    fun s' hs' number => ?_
  · rwa [seen_map_leftover fun here =>
      revise_elsewhere (decide_eq_false (other here))] at slots
  · rw [ht.sound.cache.eq_of_number hr' hr (number.trans same.number.symm)]
    simp [without, mapped', same.failed, unfailed]
  · rw [hu.sound.cache.eq_of_number hs' hs number]
    simp [without, mapped, unfailed]

include h in
/-- The first joins what is left, where the second opens a slot. -/
theorem rejoined (ht : t.Orderly) (hu : u.Orderly) (paired : Paired n m left t u)
    (fresh : ∀ s, u.cache.mapped? k = some s → s.failed = true) (here : left = true) :
    Mirrors c n m k false (t.enter k) (u.enter k) ∧
      Paired n m false (t.enter k) (u.enter k) := by
  obtain ⟨r, found, same⟩ := h.mapped?_remnant ht here
  have running : r.outcome = none := congrArg Slot.outcome same
  have number : r.number = n := congrArg Slot.number same
  obtain ⟨next, hits, misses, -⟩ := u.tidied_fields k
  have first : u.cache.next = m ∧ t.cache.next = m + 1 := by
    rcases paired.next with first | ⟨-, -, gone⟩
    · exact first
    · rw [here] at gone
      cases gone
  have self : shifted n m u.cache.next = n := by rw [first.1, shifted_self paired.le]
  rw [enter_of_fresh fresh, enter_of_running found running, number]
  refine ⟨⟨?_, ?_, h.receipts, congrArg (· + 1) h.calls, Nat.le_succ_of_le h.late,
    h.hits.trans hits.symm, h.misses.trans misses.symm⟩, paired.le, .inr ⟨?_, ?_, rfl⟩⟩
  · have slots := h.slots.join u.calls u.cache.next (shifted_injective paired.le)
      (fun r' hr' here => ?_) fun s hs here => ?_
    · have listed : seen c ((leftover n k left).map (revise
          (fun i => decide (i = shifted n m u.cache.next)) (· ++ [passing c u.calls])
          fun _ => true)) =
          [Slot.rename (passing c) (shifted n m)
            ⟨(u.tidied k).next, k, true, [u.calls], none⟩] := by
        simp [here, leftover, remnant, seen, revise, without, rename, reachable, next, self,
          passing_ne, Slot.failed]
      have old : u.cache.slots.map (revise (fun i => decide (i = u.cache.next))
          (· ++ [u.calls]) fun _ => true) = u.cache.slots := by
        refine (List.map_congr_left fun s hs => revise_elsewhere ?_).trans (List.map_id _)
        exact decide_eq_false (Nat.ne_of_lt (hu.sound.cache.numbered s hs))
      rw [listed, old, self, h.passing_calls] at slots
      rw [slots_modify_callers _ _ (· ++ [t.calls])]
      refine (alike_tidied_right hu.sound fresh slots).append_listed ?_
      rw [← listed, seen_seen]
    · rw [self] at here
      obtain ⟨hr, mapped, -⟩ := Cache.mem_of_mapped? found
      rw [ht.sound.cache.eq_of_number hr' hr (here.trans number.symm)]
      exact congrArg Slot.mapped same
    · exact absurd here (Nat.ne_of_lt (hu.sound.cache.numbered s hs))
  · have waiting := h.waiting_append u.cache.next
    simpa only [Traffic.opened, next, self] using waiting
  · show m < (u.tidied k).next + 1
    omega
  · show t.cache.next = (u.tidied k).next + 1
    omega

include h in
/-- Both get the same resolution. -/
theorem hit (ht : t.Orderly) (hu : u.Orderly) (paired : Paired n m left t u) {x : CachedResolution}
    (found : u.cache.get? asked = some x) :
    Mirrors c n m k left (t.enter asked) (u.enter asked) ∧
      Paired n m left (t.enter asked) (u.enter asked) := by
  have found' : t.cache.get? asked = some (x.renumber (shifted n m)) := by
    rw [h.get? ht hu, found, Option.map_some]
  rw [enter_of_get? found, enter_of_get? found']
  refine ⟨⟨h.slots, h.waiting, ?_, congrArg (· + 1) h.calls, Nat.le_succ_of_le h.late,
    congrArg (· + 1) h.hits, h.misses⟩, paired.congr rfl rfl⟩
  simp [h.receipts, Receipt.rename, h.passing_calls, CachedResolution.renumber, Except.map]

/-- A call comes to both. -/
theorem enter (ht : t.Orderly) (hu : u.Orderly) (h : Mirrors c n m k left t u)
    (paired : Paired n m left t u) (asked : RootKey) :
    ∃ m', Mirrors c n m' k (left && !(asked = k)) (t.enter asked) (u.enter asked) ∧
      Paired n m' (left && !(asked = k)) (t.enter asked) (u.enter asked) := by
  have unasked : (left = true → asked ≠ k) → (left && !(asked = k)) = left := by
    intro other
    cases left with
    | false => rfl
    | true => simp [other rfl]
  by_cases fresh' : ∀ s, u.cache.mapped? asked = some s → s.failed = true
  · by_cases fresh : ∀ r, t.cache.mapped? asked = some r → r.failed = true
    · rw [unasked, enter_of_fresh fresh, enter_of_fresh fresh']
      · obtain ⟨m', -, next, same, paired'⟩ := paired.exists_next
        refine ⟨m', (h.renumbered hu same).opened ht hu fresh fresh' next, paired' _ _ ?_ ?_⟩
        · exact congrArg (· + 1) (t.tidied_fields asked).1
        · exact congrArg (· + 1) (u.tidied_fields asked).1
      · rintro here rfl
        obtain ⟨r, found, same⟩ := h.mapped?_remnant ht here
        exact Bool.noConfusion ((congrArg Slot.failed same).symm.trans (fresh r found))
    · push Not at fresh
      obtain ⟨r, found, unfailed⟩ := fresh
      rcases h.of_mapped hu found (Bool.eq_false_iff.mpr unfailed) with ⟨s, found', same⟩ |
        ⟨here, rfl, -⟩
      · exact absurd (same.failed.trans (fresh' s found')) unfailed
      · have gone : (left && !(asked = asked)) = false := by simp
        rw [gone]
        exact ⟨m, h.rejoined ht hu paired fresh' here⟩
  · push Not at fresh'
    obtain ⟨s, found, unfailed⟩ := fresh'
    have unfailed := Bool.eq_false_iff.mpr unfailed
    rw [unasked]
    · match ho : s.outcome with
      | none => exact ⟨m, h.joined ht hu paired found ho⟩
      | some (_, .ok x) =>
        refine ⟨m, h.hit ht hu paired (x := x) (Cache.get?_eq_some_iff.mpr ⟨s, found, ?_⟩)⟩
        simp [completed?, ho]
      | some (_, .error _) => simp [Slot.failed, ho] at unfailed
    · rintro here rfl
      obtain ⟨r, found', same⟩ := h.exists_mapped ht found unfailed
      obtain ⟨r', found'', remains⟩ := h.mapped?_remnant ht here
      cases found'.symm.trans found''
      have number : r.number = n := congrArg Slot.number remains
      have old := hu.sound.cache.numbered s (Cache.mem_of_mapped? found).1
      exact paired.shifted_ne here old (same.number.symm.trans number)

/-! ### Runs end, and calls go away -/

include h in
theorem lookup (ht : t.Orderly) (hu : u.Orderly) (i : Nat) :
    t.waiting.lookup (passing c i) = (u.waiting.lookup i).map (shifted n m) := by
  have mem : ∀ slot, (passing c i, slot) ∈ t.waiting ↔
      ∃ p ∈ u.waiting, Prod.map (passing c) (shifted n m) p = (passing c i, slot) := by
    intro slot
    rw [← List.mem_map, ← h.waiting, List.mem_filter]
    simp [passing_ne]
  cases found : u.waiting.lookup i with
  | some slot => exact ht.seated.lookup ((mem _).mpr ⟨_, mem_of_lookup found, rfl⟩)
  | none =>
    cases found' : t.waiting.lookup (passing c i) with
    | none => rfl
    | some slot =>
      obtain ⟨p, hp, same⟩ := (mem slot).mp (mem_of_lookup found')
      obtain rfl : p.1 = i := passing_injective c (congrArg Prod.fst same)
      have waits : u.waiting.lookup p.1 = some p.2 := hu.seated.lookup hp
      cases found.symm.trans waits

include h in
/-- A slot that somebody waits on has a counterpart. -/
theorem exists_slot (ht : t.Orderly) (hu : u.Orderly) {i slot : Nat}
    (waits : u.waiting.lookup i = some slot) : ∃ s r, u.cache.slot? slot = some s ∧
      t.cache.slot? (shifted n m slot) = some r ∧ Mirrored c n m r s := by
  have waits := mem_of_lookup waits
  obtain ⟨s, hs, number⟩ := hu.seated.seats.seat _ waits
  have sits : i ∈ s.callers := by
    rw [hu.seated.seats.callers s hs, mem_party, number]
    exact waits
  obtain ⟨r, hr, same⟩ := h.slots.exists_left hs (by
    have here : passing c i ∈ ((s.rename (passing c) (shifted n m)).without c).callers :=
      List.mem_filter.mpr ⟨List.mem_map_of_mem sits, by simp [passing_ne]⟩
    simp [reachable, List.ne_nil_of_mem here])
  have same : Mirrored c n m r s := same
  refine ⟨s, r, (slot?_eq_some hu.sound).mpr ⟨hs, number⟩, ?_, same⟩
  exact (slot?_eq_some ht.sound).mpr ⟨hr, same.number.trans (congrArg _ number)⟩

include h in
theorem waitingBut (i : Nat) : ((t.waitingBut (passing c i)).filter fun p => p.1 ≠ c) =
    (u.waitingBut i).map (Prod.map (passing c) (shifted n m)) := by
  have same : ∀ p : Nat × Nat,
      decide ((Prod.map (passing c) (shifted n m) p).1 ≠ passing c i) = decide (p.1 ≠ i) :=
    fun p => by simp [(passing_injective c).eq_iff]
  unfold Traffic.waitingBut
  rw [List.filter_comm, h.waiting, List.filter_map]
  congr 1
  exact List.filter_congr fun p _ => same p

/-- A run ends in both, unless the call that the second course does not know waits for it. -/
theorem settle (ht : t.Orderly) (hu : u.Orderly) (h : Mirrors c n m k left t u)
    (paired : Paired n m left t u) {i slot : Nat} (waits : u.waiting.lookup i = some slot)
    (result : Except PackageError (Resolution × Classpath))
    (held : (t.settle (shifted n m slot) result).Held c) :
    Mirrors c n m k left (t.settle (shifted n m slot) result) (u.settle slot result) ∧
      Paired n m left (t.settle (shifted n m slot) result) (u.settle slot result) := by
  obtain ⟨s, r, found, found', same⟩ := h.exists_slot ht hu waits
  obtain ⟨hs, number⟩ := Cache.mem_of_slot? found
  obtain ⟨hr, number'⟩ := Cache.mem_of_slot? found'
  unfold Traffic.settle at held ⊢
  cases ho : s.outcome with
  | some o =>
    have ended := same.outcome
    rw [ho] at ended
    simp only [found, found', ho, ended, Option.map_some]
    exact ⟨h, paired⟩
  | none =>
    have running := same.outcome
    rw [ho] at running
    simp only [found, found', ho, running, Option.map_none] at held ⊢
    refine ⟨⟨?_, h.waiting, h.receipts, h.calls, h.late, h.hits, h.misses⟩, paired.congr rfl rfl⟩
    have outcome : Cache.outcomeOf (shifted n m slot) r.key result =
        (Cache.outcomeOf slot s.key result).map (CachedResolution.renumber (shifted n m)) := by
      cases result <;> simp [Cache.outcomeOf, Except.map, CachedResolution.renumber, same.key]
    rw [outcome] at held ⊢
    have slots := h.slots.conclude slot (Cache.outcomeOf slot s.key result)
      (shifted_injective paired.le) (passing_ne c) (fun r' hr' here => ?_) fun s' hs' here => ?_
    · rwa [seen_map_leftover fun _ => conclude_of_empty rfl] at slots
    · obtain rfl := ht.sound.cache.eq_of_number hr' hr (here.trans number'.symm)
      refine ⟨fun sits => ?_, running⟩
      obtain ⟨runner, others, callers⟩ := List.exists_cons_of_ne_nil (List.ne_nil_of_mem sits)
      have ended := held _ (List.mem_map_of_mem hr')
      rw [if_pos here] at ended
      simp only [callers] at ended sits
      cases ended sits
    · rw [hu.sound.cache.eq_of_number hs' hs (here.trans number.symm), ho]

include h in
/-- A call gets up on both sides, and the slot stays in the map or not. -/
theorem slots_withdraw (paired : Paired n m left t u) (i : Nat) {slot : Nat} (keep : Bool)
    (old : slot < u.cache.next) :
    Alike c (passing c) (shifted n m) (leftover n k left)
      (t.cache.modify (shifted n m slot) fun s =>
        { s with callers := s.callers.erase (passing c i), mapped := s.mapped && keep }).collect.slots
      (u.cache.modify slot fun s =>
        { s with callers := s.callers.erase i, mapped := s.mapped && keep }).collect.slots := by
  have injective : (shifted n m).Injective := shifted_injective paired.le
  have slots := h.slots.revise (fun j => decide (j = shifted n m slot)) (fun j => decide (j = slot))
    (·.erase (passing c i)) (·.erase i) (fun _ => keep) (fun _ => keep) (filter_erase_filter c _) rfl (fun _ => rfl)
    (fun j => by simp [injective.eq_iff]) (fun l => (List.map_erase (passing_injective c) l).symm)
    fun _ => rfl
  rw [seen_map_leftover fun here => revise_elsewhere ?_] at slots
  · have dropped := slots.dropped
    rwa [← slots_modify _ _ (·.erase (passing c i)), ← slots_modify _ _ (·.erase i)] at dropped
  · exact decide_eq_false (paired.shifted_ne here old).symm

/-- A call takes its outcome in both. -/
theorem take (ht : t.Orderly) (hu : u.Orderly) (h : Mirrors c n m k left t u)
    (paired : Paired n m left t u) (i : Nat) :
    Mirrors c n m k left (t.take (passing c i)) (u.take i) ∧
      Paired n m left (t.take (passing c i)) (u.take i) := by
  have lookup := h.lookup ht hu i
  unfold Traffic.take
  cases waits : u.waiting.lookup i with
  | none =>
    rw [waits] at lookup
    simp only [lookup, Option.map_none]
    exact ⟨h, paired⟩
  | some slot =>
    rw [waits] at lookup
    obtain ⟨s, r, found, found', same⟩ := h.exists_slot ht hu waits
    have outcome := same.outcome
    simp only [lookup, Option.map_some, Cache.deliver, found, found', Option.bind_some]
    cases ho : s.outcome with
    | none =>
      rw [ho] at outcome
      simp only [outcome, Option.map_none]
      exact ⟨h, paired⟩
    | some p =>
      obtain ⟨runner, o⟩ := p
      rw [ho] at outcome
      simp only [outcome, Option.map_some, (passing_injective c).eq_iff]
      have slots := h.slots_withdraw paired i o.isOk (hu.slot_lt (mem_of_lookup waits))
      have kept : (o.map (CachedResolution.renumber (shifted n m))).isOk = o.isOk := by
        cases o <;> rfl
      refine ⟨⟨?_, h.waitingBut i, ?_, h.calls, h.late, ?_, ?_⟩, paired.congr ?_ ?_⟩
      · simpa only [Cache.slots_leave, kept] using slots
      · simp [h.receipts, Receipt.rename]
      · rw [Cache.hits_leave, Cache.hits_leave, h.hits]
      · rw [Cache.misses_leave, Cache.misses_leave, h.misses]
      · exact Cache.next_leave ..
      · exact Cache.next_leave ..

/-- A call is given up in both. -/
theorem giveUp (ht : t.Orderly) (hu : u.Orderly) (h : Mirrors c n m k left t u)
    (paired : Paired n m left t u) (i : Nat) :
    Mirrors c n m k left (t.giveUp (passing c i)) (u.giveUp i) ∧
      Paired n m left (t.giveUp (passing c i)) (u.giveUp i) := by
  have lookup := h.lookup ht hu i
  unfold Traffic.giveUp
  cases waits : u.waiting.lookup i with
  | none =>
    rw [waits] at lookup
    simp only [lookup, Option.map_none]
    exact ⟨h, paired⟩
  | some slot =>
    rw [waits] at lookup
    simp only [lookup, Option.map_some]
    have slots := h.slots_withdraw paired i true (hu.slot_lt (mem_of_lookup waits))
    refine ⟨⟨?_, h.waitingBut i, h.receipts, h.calls, h.late, h.hits, h.misses⟩,
      paired.congr rfl rfl⟩
    simp only [Bool.and_true] at slots
    exact slots

include h in
/-- The call that the second course does not know is given up. -/
theorem abandoned (paired : Paired n m left t u) :
    Mirrors c n m k left (t.giveUp c) u ∧ Paired n m left (t.giveUp c) u := by
  unfold Traffic.giveUp
  split
  · exact ⟨h, paired⟩
  · rename_i slot waits
    refine ⟨⟨?_, ?_, h.receipts, h.calls, h.late, h.hits, h.misses⟩, paired.congr rfl rfl⟩
    · have slots := h.slots
      unfold Alike at slots ⊢
      refine List.Perm.trans (.of_eq ?_) slots
      show seen c ((t.cache.slots.map _).filter reachable) = _
      rw [seen_filter_reachable]
      refine (seen_map_congr (g := id) fun s _ => ?_).trans (by rw [List.map_id])
      split
      · exact without_erase
      · rfl
    · rw [← h.waiting]
      unfold Traffic.waitingBut
      rw [List.filter_filter]
      simp

include h in
/-- Slots leave the map on both sides, whoever waits on them, and with them what is left. -/
theorem swept (keep : Slot → Bool) (kept : ∀ s, keep (s.without c) = keep s)
    (renamed : ∀ s, keep (s.rename (passing c) (shifted n m)) = keep s)
    (gone : keep (remnant n k) = false) :
    Alike c (passing c) (shifted n m) (leftover n k false)
      ((t.cache.slots.map fun s => { s with mapped := s.mapped && keep s }).filter reachable)
      ((u.cache.slots.map fun s => { s with mapped := s.mapped && keep s }).filter reachable) := by
  have slots := h.slots.revise (fun _ => true) (fun _ => true) id id keep keep (by simp) rfl kept
    (fun _ => rfl) (fun _ => rfl) renamed
  have extra : seen c ((leftover n k left).map
      fun s => { s with mapped := s.mapped && keep s }) = leftover n k false := by
    cases left with
    | false => rfl
    | true =>
      simp only [leftover, if_true, List.map_cons, List.map_nil, gone, Bool.and_false]
      rfl
  rw [revise_everywhere, extra] at slots
  exact slots.dropped

theorem operate (ht : t.Orderly) (hu : u.Orderly) (h : Mirrors c n m k left t u)
    (paired : Paired n m left t u) (op : Operation) (held : (t.operate (op.passing c)).Held c) :
    ∃ m', Mirrors c n m' k (left && !op.Concerns k) (t.operate (op.passing c)) (u.operate op) ∧
      Paired n m' (left && !op.Concerns k) (t.operate (op.passing c)) (u.operate op) := by
  have kept : op.Concerns k = false → (left && !op.Concerns k) = left := fun other => by simp [other]
  have lost : op.Concerns k = true → (left && !op.Concerns k) = false := fun here => by simp [here]
  cases op with
  | call roots => exact h.enter ht hu paired (.ofRoots roots)
  | ends i result =>
    rw [kept rfl]
    have lookup := h.lookup ht hu i
    simp only [Operation.passing, Traffic.operate, event?, lookup, Option.map_map] at held ⊢
    cases waits : u.waiting.lookup i with
    | none => exact ⟨m, h, paired⟩
    | some slot =>
      rw [waits] at held
      exact ⟨m, h.settle ht hu paired waits result held⟩
  | deliver i =>
    rw [kept rfl]
    exact ⟨m, h.take ht hu paired i⟩
  | cancel i =>
    rw [kept rfl]
    exact ⟨m, h.giveUp ht hu paired i⟩
  | invalidate x =>
    rw [lost rfl]
    have slots := h.swept (fun s => !s.outdated x && !s.failed) (fun _ => rfl) (fun s => by simp) rfl
    simp only [← Bool.and_assoc] at slots
    exact ⟨m, ⟨slots, h.waiting, h.receipts, h.calls, h.late, h.hits, h.misses⟩, paired.lost rfl rfl⟩
  | clear =>
    rw [lost rfl]
    have slots := h.swept (fun _ => false) (fun _ => rfl) (fun _ => rfl) rfl
    simp only [Bool.and_false] at slots
    exact ⟨m, ⟨slots, h.waiting, h.receipts, h.calls, h.late, h.hits, h.misses⟩, paired.lost rfl rfl⟩

/-! ### What can be observed -/

include h in
theorem size : t.cache.size = u.cache.size := by
  have count := h.slots.countP (p := fun s => s.completed?.isSome) (fun _ => failed_of_completed?)
    (fun _ => rfl) fun s => by simp
  refine count.trans ?_
  cases left <;> exact Nat.zero_add _

include h in
/-- Invalidations count what is left over. -/
theorem invalidate (x : Coordinate) :
    (t.cache.invalidate x).1 = (u.cache.invalidate x).1 + if left then 1 else 0 := by
  have count := h.slots.countP (p := fun s => s.outdated x) (fun _ => failed_of_outdated)
    (fun _ => rfl) fun s => by simp
  refine count.trans ((Nat.add_comm _ _).trans ?_)
  cases left <;> rfl

include h in
/-- The same calls run. -/
theorem runs (ht : t.Orderly) (hu : u.Orderly) (absent : ∀ p ∈ t.waiting, p.1 ≠ c) (i : Nat) :
    t.Runs (passing c i) ↔ u.Runs i := by
  have sits : ∀ r ∈ t.cache.slots, r.callers.filter (· ≠ c) = r.callers := by
    intro r hr
    refine List.filter_eq_self.mpr fun j hj => decide_eq_true ?_
    rw [ht.seated.seats.callers r hr, mem_party] at hj
    exact absent _ hj
  rw [ht.runs_iff, hu.runs_iff]
  constructor
  · rintro ⟨r, hr, running, first⟩
    have callers : (r.without c).callers = r.callers := sits r hr
    have nonempty : r.callers ≠ [] := by
      rintro none
      simp [none] at first
    rcases h.slots.exists_right hr (by simp [reachable, callers, nonempty]) with listed | ⟨s, hs, same⟩
    · cases left with
      | false => cases listed
      | true =>
        rw [List.mem_singleton.mp listed] at callers
        exact absurd callers.symm nonempty
    · have same : Mirrored c n m r s := same
      rw [← sits r hr, same.callers, List.head?_map] at first
      obtain ⟨j, first, here⟩ := Option.map_eq_some_iff.mp first
      rw [passing_injective c here] at first
      refine ⟨s, hs, ?_, first⟩
      have outcome := same.outcome
      rw [running] at outcome
      exact Option.map_eq_none_iff.mp outcome.symm
  · rintro ⟨s, hs, running, first⟩
    have unfailed : s.failed = false := by simp [Slot.failed, running]
    obtain ⟨others, callers⟩ := List.head?_eq_some_iff.mp first
    obtain ⟨r, hr, same⟩ := h.slots.exists_left hs
      (by simp [reachable, without, rename, callers, passing_ne])
    have same : Mirrored c n m r s := same
    refine ⟨r, hr, by simp [same.outcome, running], ?_⟩
    rw [← sits r hr, same.callers, List.head?_map, first, Option.map_some]

end Mirrors

end Traffic

end Depot
