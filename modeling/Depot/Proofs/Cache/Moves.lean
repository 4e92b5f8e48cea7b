import Depot.Proofs.Cache.Traffic

/-!
# Moves

What one event does to a cache and its calls, in full and case by case. From it follows who sits
where: the callers of a slot are the calls that wait on it, in the order in which they came, and
a call that waits has got nothing yet.
-/

namespace Depot

/-- The calls that wait on a slot, in the order in which they came. -/
def party (waiting : List (Nat × Nat)) (number : Nat) : List Nat :=
  (waiting.filter fun p => p.2 = number).map Prod.fst

section Party

variable {waiting : List (Nat × Nat)} {call number : Nat}

@[simp] theorem mem_party : call ∈ party waiting number ↔ (call, number) ∈ waiting := by
  simp [party]

theorem party_sublist (waiting : List (Nat × Nat)) (number : Nat) :
    (party waiting number).Sublist (waiting.map Prod.fst) :=
  List.filter_sublist.map Prod.fst

theorem party_append (waiting : List (Nat × Nat)) (call slot number : Nat) :
    party (waiting ++ [(call, slot)]) number =
      party waiting number ++ if slot = number then [call] else [] := by
  by_cases h : slot = number <;> simp [party, h]

/-- Who goes away is missing from the party, and the others move up. -/
theorem party_filter (distinct : (waiting.map Prod.fst).Nodup) (call number : Nat) :
    party (waiting.filter fun p => p.1 ≠ call) number = (party waiting number).erase call := by
  rw [(distinct.sublist (party_sublist waiting number)).erase_eq_filter]
  simp only [party, List.filter_map, List.filter_filter]
  congr 1
  apply List.filter_congr
  intro p _
  by_cases hp : p.1 = call <;> simp [hp]

end Party

namespace Cache

/-- Whoever waits has a slot, and the callers of a slot are its party. -/
structure Seats (waiting : List (Nat × Nat)) (m : Cache) : Prop where
  seat : ∀ p ∈ waiting, ∃ s ∈ m.slots, s.number = p.2
  callers : ∀ s ∈ m.slots, s.callers = party waiting s.number

variable {m m' : Cache} {waiting waiting' : List (Nat × Nat)} {number call : Nat} {k : RootKey}

/-- What becomes of the slots when a call takes an outcome along. -/
theorem slots_leave (m : Cache) (call number : Nat) (ran : Bool) (o : Outcome) :
    (m.leave call number ran o).slots = (m.modify number fun s =>
      { s with callers := s.callers.erase call, mapped := s.mapped && o.isOk }).collect.slots := by
  cases ran <;> cases o <;> rfl

theorem numbered_unmap (h : ∀ s ∈ m.slots, s.number < m.next) (number : Nat) :
    ∀ s ∈ (m.unmap number).slots, s.number < (m.unmap number).next := by
  intro s hs
  obtain ⟨u, hu, rfl⟩ := List.mem_map.mp (List.mem_filter.mp hs).1
  have old := h u hu
  split <;> exact old

namespace Seats

theorem congr (h : m.Seats waiting) (slots_eq : m'.slots = m.slots) : m'.Seats waiting := by
  constructor <;> rw [slots_eq]
  · exact h.seat
  · exact h.callers

/-- A slot that somebody waits on is never dropped. -/
theorem collect (h : m.Seats waiting) : m.collect.Seats waiting := by
  constructor
  · intro p hp
    obtain ⟨s, hs, hn⟩ := h.seat p hp
    refine ⟨s, List.mem_filter.mpr ⟨hs, ?_⟩, hn⟩
    have here : p.1 ∈ s.callers := by
      rw [h.callers s hs, mem_party, hn]
      exact hp
    simp [Slot.reachable, List.ne_nil_of_mem here]
  · exact fun s hs => h.callers s (List.mem_filter.mp hs).1

/-- What is done to the slots one by one. -/
theorem of_map {f : Slot → Slot} (slots_eq : m'.slots = m.slots.map f)
    (number_eq : ∀ s, (f s).number = s.number)
    (callers_eq : ∀ s ∈ m.slots, (f s).callers = party waiting' s.number)
    (seat : ∀ p ∈ waiting', ∃ s ∈ m.slots, s.number = p.2) : m'.Seats waiting' := by
  constructor <;> rw [slots_eq]
  · intro p hp
    obtain ⟨s, hs, hn⟩ := seat p hp
    exact ⟨f s, List.mem_map_of_mem hs, (number_eq s).trans hn⟩
  · intro t ht
    obtain ⟨s, hs, rfl⟩ := List.mem_map.mp ht
    rw [callers_eq s hs, number_eq]

/-- What is done to one slot, with the same callers as before. -/
theorem modify (h : m.Seats waiting) {g : Slot → Slot} (number_eq : ∀ s, (g s).number = s.number)
    (callers_eq : ∀ s, (g s).callers = s.callers) : (m.modify number g).Seats waiting := by
  refine of_map rfl (fun s => ?_) (fun s hs => ?_) h.seat
  · split
    · exact number_eq s
    · rfl
  · split
    · rw [callers_eq, h.callers s hs]
    · exact h.callers s hs

theorem unmap (h : m.Seats waiting) (number : Nat) : (m.unmap number).Seats waiting :=
  collect (h.modify (fun _ => rfl) fun _ => rfl)

theorem finish (h : m.Seats waiting) (number : Nat) (o : Outcome) :
    (m.finish number o).Seats waiting := by
  refine h.modify (fun s => ?_) fun s => ?_ <;> split <;> rfl

theorem invalidate (h : m.Seats waiting) (c : Coordinate) : (m.invalidate c).2.Seats waiting :=
  collect (of_map rfl (fun _ => rfl) h.callers h.seat)

theorem clear (h : m.Seats waiting) : m.clear.Seats waiting :=
  collect (of_map rfl (fun _ => rfl) h.callers h.seat)

/-- A call sits down on a new slot. -/
theorem create (h : m.Seats waiting) (sound : ∀ s ∈ m.slots, s.number < m.next) (call : Nat)
    (k : RootKey) : (m.create call k).2.Seats (waiting ++ [(call, m.next)]) := by
  constructor
  · intro p hp
    rcases List.mem_append.mp hp with hp | hp
    · obtain ⟨s, hs, hn⟩ := h.seat p hp
      exact ⟨s, mem_create.mpr (.inl hs), hn⟩
    · rw [List.mem_singleton.mp hp]
      exact ⟨_, mem_create.mpr (.inr rfl), rfl⟩
  · intro s hs
    rw [party_append]
    rcases mem_create.mp hs with hs | rfl
    · have old := sound s hs
      rw [if_neg (by omega), List.append_nil, h.callers s hs]
    · -- nobody can have waited on a slot that was not there
      have nobody : party waiting m.next = [] := by
        rw [List.eq_nil_iff_forall_not_mem]
        intro call hc
        obtain ⟨s, hs, hn⟩ := h.seat _ (mem_party.mp hc)
        have old := sound s hs
        simp only at hn
        omega
      simp [nobody]

/-- A call sits down beside others. -/
theorem join (h : m.Seats waiting) {s : Slot} (hs : s ∈ m.slots) (call : Nat) :
    (m.modify s.number fun t => { t with callers := t.callers ++ [call] }).Seats
      (waiting ++ [(call, s.number)]) := by
  refine of_map rfl (fun t => ?_) (fun t ht => ?_) fun p hp => ?_
  · split <;> rfl
  · rw [party_append]
    split
    · rename_i hn
      rw [if_pos hn.symm, ← h.callers t ht]
    · rename_i hn
      rw [if_neg (Ne.symm hn), List.append_nil, h.callers t ht]
  · rcases List.mem_append.mp hp with hp | hp
    · exact h.seat p hp
    · rw [List.mem_singleton.mp hp]
      exact ⟨s, hs, rfl⟩

/-- A call gets up from the slot that it has waited on. -/
theorem withdraw (h : m.Seats waiting) (distinct : (waiting.map Prod.fst).Nodup)
    (waits : (call, number) ∈ waiting) {g : Slot → Slot}
    (number_eq : ∀ s, (g s).number = s.number)
    (callers_eq : ∀ s, (g s).callers = s.callers.erase call) :
    (m.modify number g).collect.Seats (waiting.filter fun p => p.1 ≠ call) := by
  refine collect (of_map rfl (fun s => ?_) (fun s hs => ?_) fun p hp => ?_)
  · split
    · exact number_eq s
    · rfl
  · rw [party_filter distinct]
    split
    · rw [callers_eq, h.callers s hs]
    · rename_i hn
      have elsewhere : call ∉ party waiting s.number := by
        intro here
        have same := List.inj_on_of_nodup_map distinct waits (mem_party.mp here) rfl
        exact hn (congrArg Prod.snd same).symm
      rw [List.erase_of_not_mem elsewhere, h.callers s hs]
  · exact h.seat p (List.mem_filter.mp hp).1

end Seats

end Cache

namespace Traffic

variable {t t' : Traffic} {e : Event}

/-- The next call waits on a slot that is opened for it. -/
def opened (t : Traffic) (k : RootKey) (m : Cache) : Traffic :=
  { t with
    cache := (m.create t.calls k).2
    calls := t.calls + 1
    waiting := t.waiting ++ [(t.calls, m.next)] }

/-- What each event does. A run that nobody has started cannot end, an outcome that is not there
cannot be taken, and who does not wait cannot be given up: such events pass unnoticed. -/
inductive Move (t : Traffic) : Event → Traffic → Prop where
  | hits {roots : List Coordinate} {x : CachedResolution}
      (found : t.cache.get? (.ofRoots roots) = some x) :
      t.Move (.call roots) { t with
        cache := { t.cache with hits := t.cache.hits + 1 }
        calls := t.calls + 1
        receipts := t.receipts ++ [⟨t.calls, x.number, .ok x⟩] }
  | joins {roots : List Coordinate} {s : Slot}
      (found : t.cache.mapped? (.ofRoots roots) = some s) (running : s.outcome = none) :
      t.Move (.call roots) { t with
        cache := t.cache.modify s.number fun s => { s with callers := s.callers ++ [t.calls] }
        calls := t.calls + 1
        waiting := t.waiting ++ [(t.calls, s.number)] }
  | opens {roots : List Coordinate} (absent : t.cache.mapped? (.ofRoots roots) = none) :
      t.Move (.call roots) (t.opened (.ofRoots roots) t.cache)
  | reopens {roots : List Coordinate} {s : Slot}
      (found : t.cache.mapped? (.ofRoots roots) = some s) (failed : s.failed = true) :
      t.Move (.call roots) (t.opened (.ofRoots roots) (t.cache.unmap s.number))
  | ends {slot : Nat} {result : Except PackageError (Resolution × Classpath)} {s : Slot}
      (found : t.cache.slot? slot = some s) (running : s.outcome = none) :
      t.Move (.finish slot result)
        { t with cache := t.cache.finish slot (Cache.outcomeOf slot s.key result) }
  | takes {call slot runner : Nat} {s : Slot} {o : Outcome}
      (waits : t.waiting.lookup call = some slot) (found : t.cache.slot? slot = some s)
      (ended : s.outcome = some (runner, o)) :
      t.Move (.deliver call) { t with
        cache := t.cache.leave call slot (runner = call) o
        waiting := t.waitingBut call
        receipts := t.receipts ++ [⟨call, slot, o⟩] }
  | leaves {call slot : Nat} (waits : t.waiting.lookup call = some slot) :
      t.Move (.cancel call)
        { t with cache := t.cache.cancel call slot, waiting := t.waitingBut call }
  | invalidates (c : Coordinate) :
      t.Move (.invalidate c) { t with cache := (t.cache.invalidate c).2 }
  | clears : t.Move .clear { t with cache := t.cache.clear }
  | endsNone {slot : Nat} {result : Except PackageError (Resolution × Classpath)}
      (ended : ∀ s, t.cache.slot? slot = some s → s.outcome ≠ none) :
      t.Move (.finish slot result) t
  | takesNone {call : Nat}
      (running : ∀ slot, t.waiting.lookup call = some slot →
        ∀ s, t.cache.slot? slot = some s → s.outcome = none) :
      t.Move (.deliver call) t
  | leavesNone {call : Nat} (absent : t.waiting.lookup call = none) : t.Move (.cancel call) t

theorem move_enter (t : Traffic) (roots : List Coordinate) :
    t.Move (.call roots) (t.enter (.ofRoots roots)) := by
  cases hm : t.cache.mapped? (.ofRoots roots) with
  | none =>
    simp only [enter, Cache.start, hm, Cache.create]
    exact .opens hm
  | some s =>
    cases ho : s.outcome with
    | none =>
      simp only [enter, Cache.start, hm, ho]
      exact .joins hm ho
    | some o =>
      obtain ⟨runner, result⟩ := o
      cases result with
      | ok x =>
        simp only [enter, Cache.start, hm, ho]
        exact .hits (Cache.get?_eq_some_iff.mpr ⟨s, hm, by simp [Slot.completed?, ho]⟩)
      | error e =>
        simp only [enter, Cache.start, hm, ho, Cache.create]
        exact .reopens hm (by simp [Slot.failed, ho])

theorem move_settle (t : Traffic) (slot : Nat)
    (result : Except PackageError (Resolution × Classpath)) :
    t.Move (.finish slot result) (t.settle slot result) := by
  unfold settle
  cases hs : t.cache.slot? slot with
  | none => exact .endsNone (by simp [hs])
  | some s =>
    cases ho : s.outcome with
    | none =>
      simp only [ho]
      exact .ends hs ho
    | some o =>
      simp only [ho]
      exact .endsNone (by simp [hs, ho])

theorem move_take (t : Traffic) (call : Nat) : t.Move (.deliver call) (t.take call) := by
  unfold take
  cases hw : t.waiting.lookup call with
  | none => exact .takesNone (by simp [hw])
  | some slot =>
    cases hd : t.cache.deliver call slot with
    | none =>
      simp only [hd]
      refine .takesNone fun slot' hw' s hs => ?_
      cases hw.symm.trans hw'
      cases ho : s.outcome with
      | none => rfl
      | some p => simp [Cache.deliver, hs, ho] at hd
    | some p =>
      obtain ⟨o, cache⟩ := p
      obtain ⟨s, runner, hs, ho, rfl⟩ := Cache.deliver_eq_some hd
      simp only [hd]
      exact .takes hw hs ho

theorem move_giveUp (t : Traffic) (call : Nat) : t.Move (.cancel call) (t.giveUp call) := by
  unfold giveUp
  cases hw : t.waiting.lookup call with
  | none => exact .leavesNone hw
  | some slot => exact .leaves hw

theorem move_step (t : Traffic) (e : Event) : t.Move e (t.step e) := by
  cases e with
  | call roots => exact t.move_enter roots
  | finish slot result => exact t.move_settle slot result
  | deliver call => exact t.move_take call
  | cancel call => exact t.move_giveUp call
  | invalidate c => exact .invalidates c
  | clear => exact .clears

/-- The events after which no run is in the map. -/
def Event.Sweeps : Event → Prop
  | .invalidate _ => True
  | .clear => True
  | _ => False

namespace Move

/-- What an event makes of one slot. Outcomes come when a run ends, and without an outcome a slot
stays where it is as long as nothing is swept. -/
structure Turns (e : Event) (s s' : Slot) : Prop where
  number : s'.number = s.number
  key : s'.key = s.key
  outcome : s'.outcome = s.outcome ∨ s.outcome = none ∧ ∃ result runner,
    e = .finish s.number result ∧ s.callers.head? = some runner ∧
      s'.outcome = some (runner, Cache.outcomeOf s.number s.key result)
  mapped : s'.mapped = s.mapped ∨ s.outcome ≠ none ∨ e.Sweeps

theorem Turns.refl (e : Event) (s : Slot) : Turns e s s := ⟨rfl, rfl, .inl rfl, .inl rfl⟩

theorem turns_of_modify {m : Cache} {number : Nat} {g : Slot → Slot} {s' : Slot}
    (hs : s' ∈ (m.modify number g).slots)
    (turns : ∀ s ∈ m.slots, s.number = number → Turns e s (g s)) :
    ∃ s ∈ m.slots, Turns e s s' := by
  obtain ⟨s, mem, rfl⟩ := List.mem_map.mp hs
  refine ⟨s, mem, ?_⟩
  split
  · exact turns s mem (by assumption)
  · exact .refl e s

/-- A slot comes from one that was there, or a call has opened it. -/
theorem slot (move : t.Move e t') (sound : t.Sound) {s' : Slot} (hs : s' ∈ t'.cache.slots) :
    (∃ s ∈ t.cache.slots, Turns e s s') ∨
      ∃ roots, e = .call roots ∧ s' = ⟨t.cache.next, .ofRoots roots, true, [t.calls], none⟩ := by
  cases move with
  | hits found => exact .inl ⟨s', hs, .refl _ s'⟩
  | joins found running =>
    exact .inl (turns_of_modify hs fun s _ _ => ⟨rfl, rfl, .inl rfl, .inl rfl⟩)
  | @opens roots absent =>
    rcases Cache.mem_create.mp hs with hs | rfl
    · exact .inl ⟨s', hs, .refl _ s'⟩
    · exact .inr ⟨roots, rfl, rfl⟩
  | @reopens roots r found failed =>
    rcases Cache.mem_create.mp hs with hs | rfl
    · refine .inl (turns_of_modify (List.mem_filter.mp hs).1 fun s hs hn => ?_)
      rw [sound.cache.eq_of_number hs (Cache.mem_of_mapped? found).1 hn]
      refine ⟨rfl, rfl, .inl rfl, .inr (.inl fun running => ?_)⟩
      simp [Slot.failed, running] at failed
    · exact .inr ⟨roots, rfl, rfl⟩
  | ends found running =>
    obtain ⟨hr, hn⟩ := Cache.mem_of_slot? found
    refine .inl (turns_of_modify hs fun s hs hn' => ?_)
    obtain rfl := sound.cache.eq_of_number hs hr (hn'.trans hn.symm)
    subst hn
    cases hc : s.callers with
    | nil => exact .refl _ s
    | cons runner callers =>
      exact ⟨rfl, rfl, .inr ⟨running, _, runner, rfl, by rw [hc]; rfl, rfl⟩, .inl rfl⟩
  | takes waits found ended =>
    obtain ⟨hr, hn⟩ := Cache.mem_of_slot? found
    rw [Cache.slots_leave] at hs
    refine .inl (turns_of_modify (List.mem_filter.mp hs).1 fun s hs hn' => ?_)
    rw [sound.cache.eq_of_number hs hr (hn'.trans hn.symm)]
    exact ⟨rfl, rfl, .inl rfl, .inr (.inl (by simp [ended]))⟩
  | leaves waits =>
    exact .inl (turns_of_modify (List.mem_filter.mp hs).1 fun s _ _ =>
      ⟨rfl, rfl, .inl rfl, .inl rfl⟩)
  | invalidates c =>
    obtain ⟨s, mem, rfl⟩ := List.mem_map.mp (List.mem_filter.mp hs).1
    exact .inl ⟨s, mem, rfl, rfl, .inl rfl, .inr (.inr trivial)⟩
  | clears =>
    obtain ⟨s, mem, rfl⟩ := List.mem_map.mp (List.mem_filter.mp hs).1
    exact .inl ⟨s, mem, rfl, rfl, .inl rfl, .inr (.inr trivial)⟩
  | endsNone ended => exact .inl ⟨s', hs, .refl _ s'⟩
  | takesNone running => exact .inl ⟨s', hs, .refl _ s'⟩
  | leavesNone absent => exact .inl ⟨s', hs, .refl _ s'⟩

/-- A call waits on a slot whose run has ended. -/
def Due (t : Traffic) (call slot : Nat) (o : Outcome) : Prop :=
  (call, slot) ∈ t.waiting ∧ ∃ s ∈ t.cache.slots, s.number = slot ∧
    ∃ runner, s.outcome = some (runner, o)

/-- Nobody but the next call joins those who wait. One of them may leave, given up or with the
outcome of its slot. -/
theorem waiting (move : t.Move e t') :
    t'.waiting = t.waiting ∨
    (∃ roots slot, e = .call roots ∧ t'.waiting = t.waiting ++ [(t.calls, slot)]) ∨
    ∃ call slot, (call, slot) ∈ t.waiting ∧ t'.waiting = t.waitingBut call ∧
      (e = .cancel call ∨ e = .deliver call ∧ ∃ o, Due t call slot o) := by
  cases move with
  | hits found => exact .inl rfl
  | joins found running => exact .inr (.inl ⟨_, _, rfl, rfl⟩)
  | opens absent => exact .inr (.inl ⟨_, _, rfl, rfl⟩)
  | reopens found failed => exact .inr (.inl ⟨_, _, rfl, rfl⟩)
  | ends found running => exact .inl rfl
  | takes waits found ended =>
    obtain ⟨hs, hn⟩ := Cache.mem_of_slot? found
    have waits := mem_of_lookup waits
    exact .inr (.inr ⟨_, _, waits, rfl, .inr ⟨rfl, _, waits, _, hs, hn, _, ended⟩⟩)
  | leaves waits => exact .inr (.inr ⟨_, _, mem_of_lookup waits, rfl, .inl rfl⟩)
  | invalidates c => exact .inl rfl
  | clears => exact .inl rfl
  | endsNone ended => exact .inl rfl
  | takesNone running => exact .inl rfl
  | leavesNone absent => exact .inl rfl

/-- One call at a time gets something: the next one, or one that waits and has been due. -/
theorem receipts (move : t.Move e t') :
    t'.receipts = t.receipts ∨ ∃ a, t'.receipts = t.receipts ++ [a] ∧
      ((∃ roots x, e = .call roots ∧ t.cache.get? (.ofRoots roots) = some x ∧
          a = ⟨t.calls, x.number, .ok x⟩) ∨
        e = .deliver a.call ∧ Due t a.call a.slot a.outcome ∧ t'.waiting = t.waitingBut a.call) := by
  cases move with
  | hits found => exact .inr ⟨_, rfl, .inl ⟨_, _, rfl, found, rfl⟩⟩
  | joins found running => exact .inl rfl
  | opens absent => exact .inl rfl
  | reopens found failed => exact .inl rfl
  | ends found running => exact .inl rfl
  | takes waits found ended =>
    obtain ⟨hs, hn⟩ := Cache.mem_of_slot? found
    exact .inr ⟨_, rfl, .inr ⟨rfl, ⟨mem_of_lookup waits, _, hs, hn, _, ended⟩, rfl⟩⟩
  | leaves waits => exact .inl rfl
  | invalidates c => exact .inl rfl
  | clears => exact .inl rfl
  | endsNone ended => exact .inl rfl
  | takesNone running => exact .inl rfl
  | leavesNone absent => exact .inl rfl

end Move

/-- Each call that waits sits on one slot, and has got nothing yet. -/
structure Seated (t : Traffic) : Prop where
  seats : t.cache.Seats t.waiting
  distinct : (t.waiting.map Prod.fst).Nodup
  unserved : ∀ p ∈ t.waiting, ∀ a ∈ t.receipts, a.call ≠ p.1

theorem seated_idle : idle.Seated := by
  refine ⟨⟨?_, ?_⟩, ?_, ?_⟩ <;> simp [idle, Cache.empty]

namespace Seated

/-- A call waits on one slot only. -/
theorem slot_eq (h : t.Seated) {call slot slot' : Nat} (hp : (call, slot) ∈ t.waiting)
    (hp' : (call, slot') ∈ t.waiting) : slot = slot' :=
  congrArg Prod.snd (List.inj_on_of_nodup_map h.distinct hp hp' rfl)

theorem lookup (h : t.Seated) {call slot : Nat} (hp : (call, slot) ∈ t.waiting) :
    t.waiting.lookup call = some slot := by
  cases hl : t.waiting.lookup call with
  | none =>
    have absent := List.lookup_eq_none_iff.mp hl _ hp
    simp at absent
  | some slot' => rw [h.slot_eq hp (mem_of_lookup hl)]

/-- The next call has not been here before. -/
theorem enters (h : t.Seated) (sound : t.Sound) {m : Cache} {slot : Nat}
    (seats : m.Seats (t.waiting ++ [(t.calls, slot)])) :
    Seated { t with
      cache := m, calls := t.calls + 1, waiting := t.waiting ++ [(t.calls, slot)] } := by
  refine ⟨seats, ?_, ?_⟩
  · rw [List.map_append]
    refine h.distinct.append (List.nodup_singleton _) ?_
    intro call hc hc'
    obtain ⟨p, hp, rfl⟩ := List.mem_map.mp hc
    have early := sound.waiting p hp
    simp only [List.map_cons, List.map_nil, List.mem_singleton] at hc'
    omega
  · intro p hp a ha
    rcases List.mem_append.mp hp with hp | hp
    · exact h.unserved p hp a ha
    · rw [List.mem_singleton.mp hp]
      exact Nat.ne_of_lt (sound.receipts a ha).1

/-- Who gets up takes at most one thing along, and leaves the others as they were. -/
theorem withdraws (h : t.Seated) {m : Cache} {call : Nat} {receipts : List Receipt}
    (seats : m.Seats (t.waitingBut call))
    (own : ∀ a ∈ receipts, a ∈ t.receipts ∨ a.call = call) :
    Seated { t with cache := m, waiting := t.waitingBut call, receipts := receipts } := by
  refine ⟨seats, h.distinct.sublist (List.filter_sublist.map Prod.fst), ?_⟩
  intro p hp a ha
  obtain ⟨hp, other⟩ := List.mem_filter.mp hp
  rcases own a ha with ha | ha
  · exact h.unserved p hp a ha
  · rw [ha]
    exact Ne.symm (by simpa using other)

theorem move (h : t.Seated) (sound : t.Sound) (move : t.Move e t') : t'.Seated := by
  cases move with
  | hits found =>
    refine ⟨h.seats.congr rfl, h.distinct, ?_⟩
    intro p hp a ha
    rcases List.mem_append.mp ha with ha | ha
    · exact h.unserved p hp a ha
    · rw [List.mem_singleton.mp ha]
      exact Nat.ne_of_gt (sound.waiting p hp)
  | joins found running => exact h.enters sound (h.seats.join (Cache.mem_of_mapped? found).1 _)
  | opens absent => exact h.enters sound (h.seats.create sound.cache.numbered _ _)
  | reopens found failed =>
    exact h.enters sound
      ((h.seats.unmap _).create (Cache.numbered_unmap sound.cache.numbered _) _ _)
  | ends found running => exact ⟨h.seats.finish _ _, h.distinct, h.unserved⟩
  | takes waits found ended =>
    refine h.withdraws ?_ fun a ha => ?_
    · refine Cache.Seats.congr ?_ (Cache.slots_leave _ _ _ _ _)
      exact h.seats.withdraw h.distinct (mem_of_lookup waits) (fun _ => rfl) fun _ => rfl
    · rcases List.mem_append.mp ha with ha | ha
      · exact .inl ha
      · exact .inr (by rw [List.mem_singleton.mp ha])
  | leaves waits =>
    refine h.withdraws ?_ fun a ha => .inl ha
    exact h.seats.withdraw h.distinct (mem_of_lookup waits) (fun _ => rfl) fun _ => rfl
  | invalidates c => exact ⟨h.seats.invalidate c, h.distinct, h.unserved⟩
  | clears => exact ⟨h.seats.clear, h.distinct, h.unserved⟩
  | endsNone ended => exact h
  | takesNone running => exact h
  | leavesNone absent => exact h

theorem run (h : t.Seated) (sound : t.Sound) (events : List Event) : (t.run events).Seated := by
  induction events generalizing t with
  | nil => exact h
  | cons e events ih => exact ih (h.move sound (t.move_step e)) (sound.step e)

end Seated

end Traffic

end Depot
