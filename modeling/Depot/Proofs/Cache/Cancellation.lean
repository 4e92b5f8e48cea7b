import Depot.Proofs.Cache.Courses

/-!
# Calls that are given up

A call opens a slot and is given up before its run has ended. From then on the cache does what it
would do if the call had not been made, whatever is asked of it later. There is one difference:
the slot is still in the map, and until somebody asks for its key again or the map is swept, an
invalidation counts it, although nobody runs it.
-/

namespace Depot

open Slot

namespace Traffic

variable {c n m ahead : Nat} {k : RootKey} {left : Bool} {t u : Traffic}

/-! ### The call is in flight -/

/-- No operation of the others gives a call up or hands it its outcome. -/
theorem operate_passing_cases (t : Traffic) (c : Nat) (op : Operation) :
    t.operate (op.passing c) = t ∨ ∃ e, t.operate (op.passing c) = t.step e ∧
      e ≠ .cancel c ∧ e ≠ .deliver c := by
  cases op with
  | call roots => exact .inr ⟨.call roots, rfl, by simp, by simp⟩
  | ends i result =>
    cases waits : t.waiting.lookup (passing c i) with
    | none => exact .inl (by simp [operate, event?, Operation.passing, waits])
    | some slot =>
      exact .inr ⟨.finish slot result, by simp [operate, event?, Operation.passing, waits],
        by simp, by simp⟩
  | deliver i =>
    exact .inr ⟨.deliver (passing c i), rfl, by simp, by simp [passing_ne]⟩
  | cancel i =>
    exact .inr ⟨.cancel (passing c i), rfl, by simp [passing_ne], by simp⟩
  | invalidate x => exact .inr ⟨.invalidate x, rfl, by simp, by simp⟩
  | clear => exact .inr ⟨.clear, rfl, by simp, by simp⟩

theorem waits_operate (waits : (c, n) ∈ t.waiting) (op : Operation) :
    (c, n) ∈ (t.operate (op.passing c)).waiting := by
  rcases t.operate_passing_cases c op with same | ⟨e, stepped, kept, undelivered⟩
  · rwa [same]
  · rw [stepped]
    exact (t.move_step e).waits waits kept fun delivered => absurd delivered undelivered

/-- An outcome that is not there now was not there before. -/
theorem held_of_operate (h : t.Orderly) (waits : (c, n) ∈ t.waiting) {op : Operation}
    (held : (t.operate (op.passing c)).Held c) : t.Held c := by
  have waits' := waits_operate waits op
  have seated' := (h.operate (op.passing c)).seated
  intro s hs sits
  have number : s.number = n := by
    rw [h.seated.seats.callers s hs, mem_party] at sits
    exact h.seated.slot_eq sits waits
  rcases t.operate_passing_cases c op with same | ⟨e, stepped, -, -⟩
  · rw [same] at held
    exact held s hs sits
  · rw [stepped] at held waits' seated'
    obtain ⟨s', hs', number', turns⟩ :=
      (t.move_step e).turns_of_waiting h.sound h.seated waits waits' hs number
    have running : s'.outcome = none := held s' hs' (by
      rw [seated'.seats.callers s' hs', mem_party, number']
      exact waits')
    rcases turns.outcome with same | ⟨running', -⟩
    · exact same ▸ running
    · exact running'

theorem held_of_operateAll (h : t.Orderly) (waits : (c, n) ∈ t.waiting) {ops : List Operation}
    (held : (t.operateAll (ops.map (·.passing c))).Held c) : t.Held c := by
  induction ops generalizing t with
  | nil => exact held
  | cons op ops ih =>
    exact held_of_operate h waits (ih (h.operate _) (waits_operate waits op) held)

theorem waits_operateAll (waits : (c, n) ∈ t.waiting) (ops : List Operation) :
    (c, n) ∈ (t.operateAll (ops.map (·.passing c))).waiting := by
  induction ops generalizing t with
  | nil => exact waits
  | cons op ops ih => exact ih (waits_operate waits op)

/-- Who runs has no outcome yet. -/
theorem held_of_running (h : t.Orderly) (runs : t.cache.running? n = some c) : t.Held c := by
  obtain ⟨s, hs, number, running, first⟩ := (running?_eq_some h.sound h.seated).mp runs
  intro r hr sits
  rw [h.seated.seats.callers r hr, mem_party] at sits
  have same := h.seated.slot_eq sits (waits_of_head? first)
  rw [h.sound.cache.eq_of_number hr hs (same.trans number.symm), running]

/-- Who runs in the end has had no outcome on the way. -/
theorem held_of_flight (h : t.Orderly) (waits : (c, n) ∈ t.waiting) {ops : List Operation}
    (runs : (t.operateAll (ops.map (·.passing c))).cache.running? n = some c)
    (earlier : List Operation) (early : earlier <+: ops) :
    (t.operateAll (earlier.map (·.passing c))).Held c := by
  obtain ⟨rest, rfl⟩ := early
  have held := held_of_running (h.operateAll _) runs
  rw [List.map_append, operateAll_append] at held
  exact held_of_operateAll (h.operateAll _) (waits_operateAll waits earlier) held

/-! ### The call has gone -/

/-- A call that has come and does not wait. -/
structure Gone (c : Nat) (t : Traffic) : Prop where
  early : c < t.calls
  absent : ∀ p ∈ t.waiting, p.1 ≠ c

namespace Gone

theorem step (h : Gone c t) (sound : t.Sound) (e : Event) : Gone c (t.step e) := by
  have adv := sound.advances e
  refine ⟨Nat.lt_of_lt_of_le h.early adv.calls_le, fun p hp => ?_⟩
  rcases adv.waiting p hp with hp | ⟨⟨last, -⟩, -⟩
  · exact h.absent p hp
  · rw [last]
    exact Nat.ne_of_gt h.early

theorem operateAll (h : Gone c t) (ht : t.Orderly) (ops : List Operation) :
    Gone c (t.operateAll ops) := by
  induction ops generalizing t with
  | nil => exact h
  | cons op ops ih =>
    refine ih ?_ (ht.operate op)
    rcases t.operate_cases op with same | ⟨e, stepped⟩
    · rwa [same]
    · rw [stepped]
      exact h.step ht.sound e

theorem of_cancel (h : t.Orderly) (waits : (c, n) ∈ t.waiting) : Gone c (t.step (.cancel c)) := by
  refine ⟨Nat.lt_of_lt_of_le (h.sound.waiting _ waits)
    (h.sound.advances (.cancel c)).calls_le, fun p hp => ?_⟩
  simp only [Traffic.step, giveUp, h.seated.lookup waits] at hp
  exact of_decide_eq_true (List.mem_filter.mp hp).2

theorem held (h : Gone c t) (seated : t.Seated) : t.Held c := by
  intro s hs sits
  rw [seated.seats.callers s hs, mem_party] at sits
  exact absurd rfl (h.absent _ sits)

end Gone

/-! ### Both courses as a whole -/

/-- Whether the first operation that concerns a key is an invalidation. -/
def miscounts (k : RootKey) : List Operation → Bool
  | [] => false
  | op :: ops => if op.Concerns k then op.invalidates else miscounts k ops

theorem miscounts_append (k : RootKey) (ops later : List Operation) :
    ((if miscounts k ops then 1 else 0) +
      if !ops.any (·.Concerns k) && miscounts k later then 1 else 0) =
      if miscounts k (ops ++ later) then 1 else 0 := by
  induction ops with
  | nil => simp [miscounts]
  | cons op ops ih =>
    cases concerns : op.Concerns k with
    | true => simp [miscounts, concerns]
    | false =>
      simp only [List.cons_append, miscounts, List.any_cons, concerns, Bool.false_or,
        Bool.false_eq_true, if_false]
      exact ih

namespace Mirrors

/-- What an operation adds to the tally. -/
theorem tally (h : Mirrors c n m k left t u)
    (tally : t.cache.invalidations = u.cache.invalidations + ahead) (op : Operation) :
    (t.operate (op.passing c)).cache.invalidations =
      (u.operate op).cache.invalidations + (ahead + if left && op.invalidates then 1 else 0) := by
  rw [operate_invalidations, operate_invalidations, tally]
  cases op with
  | invalidate x =>
    have counts := h.invalidate x
    simp only [Operation.passing, Operation.invalidates, Bool.and_true]
    omega
  | _ => simp [Operation.passing, Operation.invalidates]

theorem operateAll (ht : t.Orderly) (hu : u.Orderly) (h : Mirrors c n m k left t u)
    (paired : Paired n m left t u) (tally : t.cache.invalidations = u.cache.invalidations + ahead)
    (ops : List Operation)
    (held : ∀ earlier, earlier <+: ops → (t.operateAll (earlier.map (·.passing c))).Held c) :
    let t' := t.operateAll (ops.map (·.passing c))
    let u' := u.operateAll ops
    ∃ m', Mirrors c n m' k (left && !ops.any (·.Concerns k)) t' u' ∧
      Paired n m' (left && !ops.any (·.Concerns k)) t' u' ∧
      t'.cache.invalidations =
        u'.cache.invalidations + (ahead + if left && miscounts k ops then 1 else 0) := by
  induction ops generalizing t u m left ahead with
  | nil =>
    have same : (left && !([] : List Operation).any (·.Concerns k)) = left := by simp
    rw [same]
    refine ⟨m, h, paired, tally.trans ?_⟩
    simp [miscounts, Traffic.operateAll]
  | cons op ops ih =>
    have held' := held [op] ⟨ops, rfl⟩
    obtain ⟨m', h', paired'⟩ := h.operate ht hu paired op held'
    have tally' := h.tally tally op
    obtain ⟨m'', h'', paired'', tally''⟩ :=
      ih (ht.operate (op.passing c)) (hu.operate op) h' paired' tally' fun earlier early =>
        held (op :: earlier) (List.cons_prefix_cons.mpr ⟨rfl, early⟩)
    have remains : (left && !(op :: ops).any (·.Concerns k)) =
        (left && !op.Concerns k && !ops.any (·.Concerns k)) := by
      simp [Bool.and_assoc]
    have counted : (ahead + if left && miscounts k (op :: ops) then 1 else 0) =
        (ahead + if left && op.invalidates then 1 else 0) +
          if left && !op.Concerns k && miscounts k ops then 1 else 0 := by
      cases concerns : op.Concerns k with
      | true => simp [miscounts, concerns]
      | false =>
        have other : op.invalidates = false := Bool.eq_false_iff.mpr fun counts =>
          Bool.noConfusion (concerns.symm.trans (Operation.concerns_of_invalidates counts))
        simp [miscounts, concerns, other]
    rw [remains, counted]
    exact ⟨m'', h'', paired'', tally''⟩

end Mirrors

/-! ### The call has just come -/

/-- If the next call runs a slot with the next number, it has opened that slot. -/
theorem fresh_of_running (ht : t.Orderly) {roots : List Coordinate}
    (runs : (t.step (.call roots)).cache.running? t.cache.next = some t.calls) :
    ∀ s, t.cache.mapped? (.ofRoots roots) = some s → s.failed = true := by
  by_contra unfresh
  push Not at unfresh
  obtain ⟨s, found, unfailed⟩ := unfresh
  have next : (t.step (.call roots)).cache.next = t.cache.next := by
    match ho : s.outcome with
    | none =>
      rw [Traffic.step, enter_of_running found ho]
      rfl
    | some (_, .ok x) =>
      have hit := Cache.get?_eq_some_iff.mpr ⟨s, found, show s.completed? = some x by
        simp [completed?, ho]⟩
      rw [Traffic.step, enter_of_get? hit]
    | some (_, .error _) => simp [Slot.failed, ho] at unfailed
  have ht' := ht.step (.call roots)
  obtain ⟨r, hr, number, -⟩ := (running?_eq_some ht'.sound ht'.seated).mp runs
  have old := ht'.sound.cache.numbered r hr
  omega

/-- A call opens a slot, which the course without it does not have. -/
theorem mirrors_opened (ht : t.Orderly) {ended : List (Nat × Nat)} (ran : t.Ran ended)
    (fresh : ∀ s, t.cache.mapped? k = some s → s.failed = true) :
    Mirrors t.calls t.cache.next t.cache.next k true (t.enter k) t ∧
      Paired t.cache.next t.cache.next true (t.enter k) t := by
  obtain ⟨next, hits, misses, -⟩ := t.tidied_fields k
  have same : t.cache.slots.map (rename (passing t.calls) (shifted t.cache.next t.cache.next)) =
      t.cache.slots := by
    refine (List.map_congr_left fun s hs => ?_).trans (List.map_id _)
    refine rename_eq_self (ht.sound.cache.signed s hs) (fun i sits => ?_)
      (shifted_of_lt (ht.sound.cache.numbered s hs)) fun i o ho => ?_
    · rw [ht.seated.seats.callers s hs, mem_party] at sits
      exact passing_of_lt (ht.sound.waiting _ sits)
    · exact passing_of_lt (ran.early _ (ran.listed s hs i o ho)).1
  rw [enter_of_fresh fresh]
  refine ⟨⟨?_, ?_, ?_, rfl, Nat.le_refl _, hits, misses⟩, Nat.le_refl _,
    .inl ⟨rfl, congrArg (· + 1) next⟩⟩
  · have slots : Alike t.calls (passing t.calls) (shifted t.cache.next t.cache.next) []
        t.cache.slots t.cache.slots := by
      unfold Alike
      rw [same]
      exact .refl _
    have last : seen t.calls [⟨t.cache.next, k, true, [t.calls], none⟩] =
        leftover t.cache.next k true := by
      simp [seen, without, reachable, leftover, remnant, Slot.failed]
    have tidy := alike_tidied_left ht.sound fresh slots
    show Alike t.calls _ _ _
      ((t.tidied k).slots ++ [⟨(t.tidied k).next, k, true, [t.calls], none⟩]) _
    unfold Alike at tidy ⊢
    rw [seen_append, next, last]
    exact (tidy.append_right _).trans List.perm_append_comm
  · have early : ∀ p ∈ t.waiting, p.1 < t.calls := ht.sound.waiting
    have others : (t.waiting.filter fun p => p.1 ≠ t.calls) = t.waiting :=
      List.filter_eq_self.mpr fun p hp => decide_eq_true (Nat.ne_of_lt (early p hp))
    have kept : t.waiting.map (Prod.map (passing t.calls) (shifted t.cache.next t.cache.next)) =
        t.waiting := by
      refine (List.map_congr_left fun p hp => ?_).trans (List.map_id _)
      exact Prod.ext (passing_of_lt (early p hp)) (shifted_of_lt (ht.slot_lt hp))
    show ((t.waiting ++ [_]).filter _) = _
    rw [List.filter_append, others, kept]
    simp
  · refine ((List.map_congr_left fun a ha => ?_).trans (List.map_id _)).symm
    obtain ⟨early, signed⟩ := ht.sound.receipts a ha
    exact Receipt.rename_eq_self (passing_of_lt early) (shifted_of_lt (ht.receipts a ha)) signed

/-- A call opens a slot and runs it, other operations come, and before the run has ended the call is
given up. After that, whatever is asked for, the cache and its calls are as if it had never come, up
to the numbers of later calls and slots: what is in the map, who waits and who runs, what each call
got, and which calls were hits. Only invalidations tell the difference. As long as nobody has asked
for the key again and the map has not been swept, they count the slot that is left over; and if the
first to come across it was one of them, it is in the sum that the cache keeps. -/
theorem given_up_call_is_forgotten (events : List Event) (roots : List Coordinate)
    (during later : List Operation) :
    let t := idle.run events
    let c := t.calls
    let k := RootKey.ofRoots roots
    let entered := t.step (.call roots)
    let flying := entered.operateAll (during.map (·.passing c))
    entered.cache.running? t.cache.next = some c → flying.cache.running? t.cache.next = some c →
    let t' := (flying.step (.cancel c)).operateAll (later.map (·.passing c))
    let u := t.operateAll (during ++ later)
    ∃ ρ : Nat → Nat, ρ.Injective ∧
      (∀ key, t'.cache.get? key = (u.cache.get? key).map (CachedResolution.renumber ρ)) ∧
      t'.cache.size = u.cache.size ∧
      t'.waiting = u.waiting.map (Prod.map (passing c) ρ) ∧
      t'.receipts = u.receipts.map (Receipt.rename (passing c) ρ) ∧
      (∀ i, t'.Runs (passing c i) ↔ u.Runs i) ∧
      t'.cache.hits = u.cache.hits ∧ t'.cache.misses = u.cache.misses ∧
      t'.cache.invalidations = u.cache.invalidations +
        (if miscounts k (during ++ later) then 1 else 0) ∧
      ∀ x, (t'.cache.invalidate x).1 = (u.cache.invalidate x).1 +
        if (during ++ later).any (·.Concerns k) then 0 else 1 := by
  intro t c k entered flying opened runs t' u
  have ht : t.Orderly := .run events
  have ht₁ : entered.Orderly := ht.step (.call roots)
  have ht₂ : flying.Orderly := ht₁.operateAll _
  have ht₃ : (flying.step (.cancel c)).Orderly := ht₂.step (.cancel c)
  have hu : (t.operateAll during).Orderly := ht.operateAll during
  obtain ⟨h₀, paired₀⟩ := mirrors_opened ht (balanced events).ran (fresh_of_running ht opened)
  have waits : (c, t.cache.next) ∈ entered.waiting := by
    obtain ⟨-, -, -, -, first⟩ := (running?_eq_some ht₁.sound ht₁.seated).mp opened
    exact waits_of_head? first
  have tally₀ : entered.cache.invalidations = t.cache.invalidations + 0 :=
    (t.move_step (.call roots)).invalidations
  obtain ⟨m₁, h₁, paired₁, tally₁⟩ :=
    h₀.operateAll ht₁ ht paired₀ tally₀ during (held_of_flight ht₁ waits runs)
  obtain ⟨h₂, paired₂⟩ := h₁.abandoned paired₁
  have tally₂ := (flying.move_step (.cancel c)).invalidations.trans tally₁
  have gone : Gone c (flying.step (.cancel c)) := .of_cancel ht₂ (waits_operateAll waits during)
  obtain ⟨m₃, h₃, paired₃, tally₃⟩ := h₂.operateAll ht₃ hu paired₂ tally₂ later
    fun earlier _ => (gone.operateAll ht₃ _).held (ht₃.operateAll _).seated
  have ht' : t'.Orderly := ht₃.operateAll _
  have hu' : u.Orderly := ht.operateAll _
  have absent : ∀ p ∈ t'.waiting, p.1 ≠ c := (gone.operateAll ht₃ _).absent
  rw [← operateAll_append] at h₃ tally₃
  refine ⟨shifted t.cache.next m₃, shifted_injective paired₃.le, h₃.get? ht' hu', h₃.size, ?_,
    h₃.receipts, h₃.runs ht' hu' absent, h₃.hits, h₃.misses, ?_, fun x => ?_⟩
  · rw [← h₃.waiting]
    exact (List.filter_eq_self.mpr fun p hp => decide_eq_true (absent p hp)).symm
  · rw [← miscounts_append]
    simpa only [Bool.true_and, Nat.zero_add] using tally₃
  · rw [h₃.invalidate x, List.any_append]
    cases during.any _ <;> cases later.any _ <;> rfl

open Sample in
theorem given_up_call_is_forgotten_sample :
    let t := idle.run [.call [lib]]
    let flying := (t.step (.call [core])).operateAll ([Operation.call [lib]].map (·.passing 1))
    let t' := (flying.step (.cancel 1)).operateAll ([Operation.invalidate app].map (·.passing 1))
    let u := t.operateAll ([.call [lib]] ++ [.invalidate app])
    (t.step (.call [core])).cache.running? 1 = some 1 ∧ flying.cache.running? 1 = some 1 ∧
    t'.cache.size = u.cache.size ∧ t'.cache.hits = u.cache.hits ∧
    t'.cache.misses = u.cache.misses ∧ t'.cache.invalidations = u.cache.invalidations + 1 ∧
    (t'.cache.invalidate app).1 = (u.cache.invalidate app).1 := by
  have opened : ((idle.run [.call [lib]]).step (.call [core])).cache.running? 1 = some 1 := by
    decide +kernel
  have runs : (((idle.run [.call [lib]]).step (.call [core])).operateAll
      ([Operation.call [lib]].map (·.passing 1))).cache.running? 1 = some 1 := by
    decide +kernel
  obtain ⟨ρ, -, -, size, -, -, -, hits, misses, invalidations, counts⟩ :=
    given_up_call_is_forgotten [.call [lib]] [core] [.call [lib]] [.invalidate app] opened runs
  exact ⟨opened, runs, size, hits, misses, invalidations.trans (by decide +kernel),
    (counts app).trans (by decide +kernel)⟩

open Sample in
/-- The slot of a call that was given up is counted although nobody runs it. -/
theorem counts_given_up_call :
    let t := (idle.step (.call [core])).step (.cancel 0)
    (∀ i, ¬ t.Runs i) ∧ (t.cache.invalidate lib).1 = 1 ∧ (idle.cache.invalidate lib).1 = 0 := by
  refine ⟨fun i ⟨slot, runs⟩ => ?_, by decide +kernel, by decide +kernel⟩
  have ht : (idle.run [.call [core], .cancel 0]).Orderly := .run _
  obtain ⟨-, -, -, -, first⟩ := (running?_eq_some ht.sound ht.seated).mp runs
  have nobody : (idle.run [.call [core], .cancel 0]).waiting = [] := by decide +kernel
  have waits := waits_of_head? first
  rw [nobody] at waits
  cases waits

end Traffic

end Depot
