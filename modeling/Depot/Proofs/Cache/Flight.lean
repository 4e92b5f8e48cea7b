import Depot.Proofs.Cache.Chronicle
import Depot.Proofs.Cache.Invalidation

/-!
# Single flight

A key has one run at a time, unless the map was swept between the starts of the two calls that
run. Who waits on a slot gets what its run gives. When the running call is given up, one of those
who wait runs in its place. And no call gets the resolution of another key.
-/

namespace Depot

namespace Traffic

/-- A call whose own run is in flight. -/
def Runs (t : Traffic) (call : Nat) : Prop := ∃ slot, t.cache.running? slot = some call

variable {t t' : Traffic} {e : Event} {slot runner call : Nat} {o : Outcome}

theorem slot?_eq_some (sound : t.Sound) {s : Slot} :
    t.cache.slot? slot = some s ↔ s ∈ t.cache.slots ∧ s.number = slot := by
  constructor
  · exact Cache.mem_of_slot?
  · rintro ⟨hs, rfl⟩
    cases found : t.cache.slot? s.number with
    | none =>
      simp only [Cache.slot?, List.find?_eq_none, decide_eq_true_eq] at found
      exact absurd rfl (found s hs)
    | some u =>
      obtain ⟨hu, hn⟩ := Cache.mem_of_slot? found
      rw [sound.cache.eq_of_number hu hs hn]

/-- Who runs a slot is the first of its party. -/
theorem running?_eq_some (sound : t.Sound) (seated : t.Seated) :
    t.cache.running? slot = some call ↔ ∃ s ∈ t.cache.slots, s.number = slot ∧
      s.outcome = none ∧ (party t.waiting slot).head? = some call := by
  unfold Cache.running?
  constructor
  · intro h
    obtain ⟨s, found, runs⟩ := Option.bind_eq_some_iff.mp h
    obtain ⟨hs, hn⟩ := (slot?_eq_some sound).mp found
    split at runs
    · cases runs
    · rename_i running
      rw [seated.seats.callers s hs, hn] at runs
      exact ⟨s, hs, hn, by simpa using running, runs⟩
  · rintro ⟨s, hs, rfl, running, first⟩
    rw [(slot?_eq_some sound).mpr ⟨hs, rfl⟩, Option.bind_some, running, seated.seats.callers s hs]
    exact first

theorem waits_of_head? (h : (party t.waiting slot).head? = some call) : (call, slot) ∈ t.waiting :=
  mem_party.mp (List.mem_of_head? h)

/-- Two calls that run for one key run on two slots, and the map was swept between them. -/
theorem Chronicle.swept_of_runs {events : List Event} (h : Chronicle events t) (sound : t.Sound)
    (seated : t.Seated) {call' : Nat} {k : RootKey} (runs : t.Runs call) (runs' : t.Runs call')
    (asks : Asks events call k) (asks' : Asks events call' k) (lt : call < call') :
    SweptBetween events call call' := by
  obtain ⟨slot, hr⟩ := runs
  obtain ⟨slot', hr'⟩ := runs'
  obtain ⟨s, hs, rfl, running, first⟩ := (running?_eq_some sound seated).mp hr
  obtain ⟨u, hu, rfl, -, first'⟩ := (running?_eq_some sound seated).mp hr'
  have waits := waits_of_head? first
  have waits' := waits_of_head? first'
  have key : s.key = k := (h.keyed _ waits s hs rfl).unique asks
  have key' : u.key = k := (h.keyed _ waits' u hu rfl).unique asks'
  rcases h.apart _ waits _ waits' lt s hs rfl running u hu rfl (key.trans key'.symm) with
    same | swept
  · subst same
    cases first.symm.trans first'
    exact absurd lt (Nat.lt_irrefl _)
  · exact swept

/-! ### Runs under way -/

/-- Who waits goes on waiting, unless it is given up or takes its outcome. -/
theorem Move.stays (move : t.Move e t') {p : Nat × Nat} (kept : e ≠ .cancel p.1)
    (undelivered : e = .deliver p.1 → ∀ slot o, ¬ Due t p.1 slot o) :
    t'.waiting = t.waiting ∨ (∃ q, t'.waiting = t.waiting ++ [q]) ∨
      ∃ call ≠ p.1, t'.waiting = t.waitingBut call := by
  rcases move.waiting with same | ⟨roots, slot, -, grown⟩ | ⟨call, slot, -, less, why⟩
  · exact .inl same
  · exact .inr (.inl ⟨_, grown⟩)
  · refine .inr (.inr ⟨call, ?_, less⟩)
    rintro rfl
    rcases why with rfl | ⟨rfl, o, due⟩
    · exact kept rfl
    · exact undelivered rfl slot o due

theorem Move.waits (move : t.Move e t') {p : Nat × Nat} (hp : p ∈ t.waiting)
    (kept : e ≠ .cancel p.1) (undelivered : e = .deliver p.1 → ∀ slot o, ¬ Due t p.1 slot o) :
    p ∈ t'.waiting := by
  rcases move.stays kept undelivered with same | ⟨q, grown⟩ | ⟨call, other, less⟩
  · exact same ▸ hp
  · rw [grown]
    exact List.mem_append_left _ hp
  · rw [less]
    exact List.mem_filter.mpr ⟨hp, by simpa using other.symm⟩

/-- The slot of a call that waits before an event and after it. -/
theorem Move.turns_of_waiting (move : t.Move e t') (sound : t.Sound) (seated : t.Seated)
    (waits : (call, slot) ∈ t.waiting) (waits' : (call, slot) ∈ t'.waiting) {s : Slot}
    (hs : s ∈ t.cache.slots) (hn : s.number = slot) :
    ∃ s' ∈ t'.cache.slots, s'.number = slot ∧ Turns e s s' := by
  obtain ⟨s', hs', hn'⟩ := (seated.move sound move).seats.seat _ waits'
  obtain ⟨r, hr, turns⟩ := move.slot_of_waiting sound seated waits hs' hn'
  have number : r.number = s.number := (turns.number.symm.trans hn').trans hn.symm
  obtain rfl := sound.cache.eq_of_number hr hs number
  exact ⟨s', hs', hn', turns⟩

/-- A call waits on a slot of a key for the outcome of a run, its own or that of another call. -/
structure Underway (t : Traffic) (slot : Nat) (k : RootKey) (runner call : Nat) : Prop where
  unended : ∃ s ∈ t.cache.slots, s.number = slot ∧ s.key = k ∧ s.outcome = none
  first : (party t.waiting slot).head? = some runner
  waits : (call, slot) ∈ t.waiting

namespace Underway

variable {k : RootKey} (h : t.Underway slot k runner call) (sound : t.Sound) (seated : t.Seated)
include h sound seated

theorem running? : t.cache.running? slot = some runner := by
  obtain ⟨s, hs, hn, -, running⟩ := h.unended
  exact (running?_eq_some sound seated).mpr ⟨s, hs, hn, running, h.first⟩

/-- Nobody takes an outcome before it is there. -/
theorem not_due {call' slot' : Nat} (waits : (call', slot) ∈ t.waiting) :
    ¬ Move.Due t call' slot' o := by
  rintro ⟨waits', u, hu, hn', runner, ended⟩
  obtain ⟨s, hs, hn, -, running⟩ := h.unended
  rw [seated.slot_eq waits' waits] at hn'
  rw [sound.cache.eq_of_number hu hs (hn'.trans hn.symm), running] at ended
  cases ended

theorem step (unfinished : ∀ result, e ≠ .finish slot result) (kept : e ≠ .cancel call)
    (run_kept : e ≠ .cancel runner) : (t.step e).Underway slot k runner call := by
  have move := t.move_step e
  have waits : (call, slot) ∈ (t.step e).waiting :=
    move.waits h.waits kept fun _ _ _ => h.not_due sound seated h.waits
  refine ⟨?_, ?_, waits⟩
  · obtain ⟨s, hs, hn, hk, running⟩ := h.unended
    obtain ⟨s', hs', hn', turns⟩ := move.turns_of_waiting sound seated h.waits waits hs hn
    refine ⟨s', hs', hn', turns.key.trans hk, ?_⟩
    rcases turns.outcome with same | ⟨-, result, -, ended, -⟩
    · rw [same, running]
    · exact absurd ended (hn ▸ unfinished result)
  · have running := waits_of_head? h.first
    obtain ⟨others, all⟩ := List.head?_eq_some_iff.mp h.first
    rcases move.stays (p := (runner, slot)) run_kept
      (fun _ _ _ => h.not_due sound seated running) with same | ⟨q, grown⟩ | ⟨call', other, less⟩
    · rw [same, h.first]
    · rw [grown, party_append, all]
      rfl
    · rw [less, waitingBut, party_filter seated.distinct, all,
        List.erase_cons_tail (by simpa using other.symm)]
      rfl

theorem run {events : List Event} (unfinished : ∀ result, .finish slot result ∉ events)
    (kept : .cancel call ∉ events) (run_kept : .cancel runner ∉ events) :
    (t.run events).Underway slot k runner call := by
  induction events generalizing t with
  | nil => exact h
  | cons e events ih =>
    simp only [List.mem_cons, not_or] at unfinished kept run_kept
    have next := h.step sound seated (fun result => Ne.symm (unfinished result).1) (Ne.symm kept.1)
      (Ne.symm run_kept.1)
    exact ih next (sound.step e) (seated.move sound (t.move_step e))
      (fun result => (unfinished result).2) kept.2 run_kept.2

/-- The run ends, and whoever waits is to get its outcome. -/
theorem finish (result : Except PackageError (Resolution × Classpath)) :
    Move.Due (t.step (.finish slot result)) call slot (Cache.outcomeOf slot k result) := by
  obtain ⟨s, hs, hn, rfl, running⟩ := h.unended
  obtain ⟨others, all⟩ := List.head?_eq_some_iff.mp h.first
  have found := (slot?_eq_some sound).mpr ⟨hs, hn⟩
  simp only [Traffic.step, settle, found, running]
  refine ⟨h.waits, { s with outcome := some (runner, _) }, ?_, hn, runner, rfl⟩
  refine List.mem_map.mpr ⟨s, hs, ?_⟩
  simp only [seated.seats.callers s hs, hn, all, if_true]

/-- The running call is given up, and somebody else who waits runs. -/
theorem takeover (other : call ≠ runner) : ∃ call' ≠ runner, (call', slot) ∈ t.waiting ∧
    (t.step (.cancel runner)).cache.running? slot = some call' := by
  have move := t.move_step (.cancel runner)
  have seated' := seated.move sound move
  have less : (t.step (.cancel runner)).waiting = t.waitingBut runner := by
    simp only [Traffic.step, giveUp, seated.lookup (waits_of_head? h.first)]
  have stays : ∀ {call'}, (call', slot) ∈ (t.step (.cancel runner)).waiting ↔
      (call', slot) ∈ t.waiting ∧ call' ≠ runner := by
    simp [less, waitingBut]
  have waits := stays.mpr ⟨h.waits, other⟩
  obtain ⟨call', first⟩ : ∃ call',
      (party (t.step (.cancel runner)).waiting slot).head? = some call' := by
    cases hp : party (t.step (.cancel runner)).waiting slot with
    | nil => exact absurd (mem_party.mpr waits) (by simp [hp])
    | cons call' _ => exact ⟨call', rfl⟩
  obtain ⟨waits', other'⟩ := stays.mp (waits_of_head? first)
  refine ⟨call', other', waits', ?_⟩
  obtain ⟨s, hs, hn, -, running⟩ := h.unended
  obtain ⟨s', hs', hn', turns⟩ := move.turns_of_waiting sound seated h.waits waits hs hn
  refine (running?_eq_some (sound.step _) seated').mpr ⟨s', hs', hn', ?_, first⟩
  rcases turns.outcome with same | ⟨-, result, -, ended, -⟩
  · rw [same, running]
  · cases ended

end Underway

/-! ### Outcomes that are due -/

/-- What a call that waits on a slot with an outcome gets, now or later. -/
structure Bound (t : Traffic) (call slot : Nat) (o : Outcome) : Prop where
  early : call < t.calls
  due : ∀ slot', (call, slot') ∈ t.waiting → Move.Due t call slot o
  only : ∀ a ∈ t.receipts, a.call = call → a = ⟨call, slot, o⟩

section

variable (sound : t.Sound) (seated : t.Seated)
include sound seated

theorem bound_of_due (due : Move.Due t call slot o) : t.Bound call slot o where
  early := sound.waiting _ due.1
  due := fun _ _ => due
  only := fun a ha here => absurd here (seated.unserved _ due.1 a ha)

/-- An outcome stays as long as somebody waits for it. -/
theorem Move.due (move : t.Move e t') (due : Due t call slot o)
    (waits : (call, slot) ∈ t'.waiting) : Due t' call slot o := by
  obtain ⟨waited, s, hs, hn, runner, ended⟩ := due
  obtain ⟨s', hs', hn', turns⟩ := move.turns_of_waiting sound seated waited waits hs hn
  refine ⟨waits, s', hs', hn', runner, ?_⟩
  rcases turns.outcome with same | ⟨running, -⟩
  · rw [same, ended]
  · rw [running] at ended
    cases ended

theorem Move.Due.unique {slot' : Nat} {o' : Outcome} (h : Due t call slot o)
    (h' : Due t call slot' o') : slot = slot' ∧ o = o' := by
  obtain ⟨waits, s, hs, hn, runner, ended⟩ := h
  obtain ⟨waits', s', hs', hn', runner', ended'⟩ := h'
  have same := seated.slot_eq waits waits'
  obtain rfl := sound.cache.eq_of_number hs hs' ((hn.trans same).trans hn'.symm)
  cases ended.symm.trans ended'
  exact ⟨same, rfl⟩

namespace Bound

theorem step (h : t.Bound call slot o) (e : Event) : (t.step e).Bound call slot o := by
  have move := t.move_step e
  refine ⟨?_, ?_, ?_⟩
  · rw [move.calls_eq]
    exact Nat.lt_of_lt_of_le h.early (Nat.le_add_right _ _)
  · intro slot' waits
    have waited : (call, slot') ∈ t.waiting := by
      rcases move.waiting with same | ⟨roots, new, -, grown⟩ | ⟨call', -, -, less, -⟩
      · exact same ▸ waits
      · rw [grown] at waits
        refine (List.mem_append.mp waits).resolve_right fun last => ?_
        cases List.mem_singleton.mp last
        exact Nat.lt_irrefl _ h.early
      · rw [less] at waits
        exact mem_of_mem_waitingBut waits
    have due := h.due slot' waited
    rw [seated.slot_eq waited due.1] at waits
    exact move.due sound seated due waits
  · intro a ha here
    rcases move.receipts with same | ⟨b, grown, new⟩
    · exact h.only a (same ▸ ha) here
    rw [grown] at ha
    rcases List.mem_append.mp ha with ha | ha
    · exact h.only a ha here
    obtain rfl := List.mem_singleton.mp ha
    subst here
    rcases new with ⟨_, x, -, -, rfl⟩ | ⟨-, due, -⟩
    · exact absurd h.early (Nat.lt_irrefl _)
    · obtain ⟨rfl, rfl⟩ := due.unique sound seated (h.due _ due.1)
      rfl

theorem run (h : t.Bound call slot o) (events : List Event) :
    (t.run events).Bound call slot o := by
  induction events generalizing t with
  | nil => exact h
  | cons e events ih =>
    exact ih (sound.step e) (seated.move sound (t.move_step e)) (h.step sound seated e)

end Bound

/-- A call that asks for an outcome that is there gets it. -/
theorem take_of_due (due : Move.Due t call slot o) :
    ⟨call, slot, o⟩ ∈ (t.step (.deliver call)).receipts := by
  obtain ⟨waits, s, hs, hn, runner, ended⟩ := due
  have found := (slot?_eq_some sound).mpr ⟨hs, hn⟩
  simp [Traffic.step, take, seated.lookup waits, Cache.deliver, found, ended]

end

/-- A call has got an outcome or can have it. -/
def Serves (t : Traffic) (call slot : Nat) (o : Outcome) : Prop :=
  Move.Due t call slot o ∨ ⟨call, slot, o⟩ ∈ t.receipts

theorem Move.mem_receipts (move : t.Move e t') {a : Receipt} (ha : a ∈ t.receipts) :
    a ∈ t'.receipts := by
  rcases move.receipts with same | ⟨b, grown, -⟩
  · exact same ▸ ha
  · rw [grown]
    exact List.mem_append_left _ ha

theorem mem_receipts_run {a : Receipt} (ha : a ∈ t.receipts) (events : List Event) :
    a ∈ (t.run events).receipts := by
  induction events generalizing t with
  | nil => exact ha
  | cons e events ih => exact ih ((t.move_step e).mem_receipts ha)

namespace Serves

theorem step (h : t.Serves call slot o) (sound : t.Sound) (seated : t.Seated)
    (kept : e ≠ .cancel call) : (t.step e).Serves call slot o := by
  have move := t.move_step e
  rcases h with due | received
  · by_cases delivered : e = .deliver call
    · rw [delivered]
      exact .inr (take_of_due sound seated due)
    · have waits := move.waits due.1 kept fun here => absurd here delivered
      exact .inl (move.due sound seated due waits)
  · exact .inr (move.mem_receipts received)

theorem run (h : t.Serves call slot o) (sound : t.Sound) (seated : t.Seated) {events : List Event}
    (kept : .cancel call ∉ events) (delivered : .deliver call ∈ events) :
    ⟨call, slot, o⟩ ∈ (t.run events).receipts := by
  induction events generalizing t with
  | nil => cases delivered
  | cons e events ih =>
    simp only [List.mem_cons, not_or] at kept
    have next := h.step sound seated (Ne.symm kept.1)
    rcases List.mem_cons.mp delivered with rfl | delivered
    · rcases h with due | received
      · exact mem_receipts_run (take_of_due sound seated due) events
      · exact mem_receipts_run ((t.move_step _).mem_receipts received) events
    · exact ih next (sound.step e) (seated.move sound (t.move_step e)) kept.2 delivered

end Serves

/-- Two calls whose runs for one key are in flight at once have had the map swept between them. A
call that waits on a slot whose run is in flight waits until the run ends and then gets its outcome
and nothing else, whatever happens besides, unless the running call or it itself is given up. If the
running call is given up and others wait, one of these runs. What a call gets, if it is not a
failure, has the key of the roots that it asked for. -/
theorem single_flight (events : List Event) :
    let t := idle.run events
    (∀ x x' k, t.Runs x → t.Runs x' → Asks events x k → Asks events x' k →
      (x < x' → SweptBetween events x x') ∧ ((∀ e ∈ events, ¬ e.Sweeps) → x = x')) ∧
    (∀ slot runner x, t.cache.running? slot = some runner → (x, slot) ∈ t.waiting →
      (∃ k, Asks events x k ∧ ∀ flight, (∀ result, .finish slot result ∉ flight) →
        .cancel x ∉ flight → .cancel runner ∉ flight →
        (t.run flight).cache.running? slot = some runner ∧ (x, slot) ∈ (t.run flight).waiting ∧
        ∀ result landing,
          let o := Cache.outcomeOf slot k result
          let landed := ((t.run flight).step (.finish slot result)).run landing
          (∀ a ∈ landed.receipts, a.call = x → a = ⟨x, slot, o⟩) ∧
          (.cancel x ∉ landing → .deliver x ∈ landing → ⟨x, slot, o⟩ ∈ landed.receipts)) ∧
      (x ≠ runner → ∃ x' ≠ runner, (x', slot) ∈ t.waiting ∧
        (t.step (.cancel runner)).cache.running? slot = some x')) ∧
    ∀ a ∈ t.receipts, ∀ y, a.outcome = .ok y → Asks events a.call y.key := by
  intro t
  have sound : t.Sound := sound_idle.run events
  have seated : t.Seated := seated_idle.run sound_idle events
  have chronicle : Chronicle events t := chronicle events
  refine ⟨?_, ?_, chronicle.stamped⟩
  · intro x x' k runs runs' asks asks'
    have swept : x < x' → SweptBetween events x x' :=
      chronicle.swept_of_runs sound seated runs runs' asks asks'
    have swept' : x' < x → SweptBetween events x' x :=
      chronicle.swept_of_runs sound seated runs' runs asks' asks
    refine ⟨swept, fun calm => ?_⟩
    have never : ∀ {x x'}, ¬ SweptBetween events x x' := by
      rintro x x' ⟨earlier, e, later, rfl, sweeps, -⟩
      exact calm e (by simp) sweeps
    rcases Nat.lt_trichotomy x x' with lt | eq | gt
    · exact absurd (swept lt) never
    · exact eq
    · exact absurd (swept' gt) never
  · intro slot runner x runs waits
    obtain ⟨s, hs, hn, running, first⟩ := (running?_eq_some sound seated).mp runs
    have underway : t.Underway slot s.key runner x := ⟨⟨s, hs, hn, rfl, running⟩, first, waits⟩
    refine ⟨⟨s.key, chronicle.keyed _ waits s hs hn, ?_⟩, underway.takeover sound seated⟩
    intro flight unfinished kept run_kept
    have sound' := sound.run flight
    have seated' := seated.run sound flight
    have still := underway.run sound seated unfinished kept run_kept
    refine ⟨still.running? sound' seated', still.waits, fun result landing => ?_⟩
    have due := still.finish sound' seated' result
    have sound'' := sound'.step (.finish slot result)
    have seated'' := seated'.move sound' (move_step _ (.finish slot result))
    refine ⟨((bound_of_due sound'' seated'' due).run sound'' seated'' landing).only, ?_⟩
    exact Serves.run (.inl due) sound'' seated''

end Traffic

namespace Sample

/-- While two calls wait for a run of `core`, its manifest changes and it is asked for again. -/
def overlapping : List Traffic.Event := history ++ [.invalidate core, .call [core]]

def overlapped : Traffic := Traffic.idle.run overlapping

def ranCore : CachedResolution := ⟨2, .ofRoots [core], (holding [core]).1, []⟩

end Sample

open Sample in
theorem Traffic.single_flight_sample :
    (overlapped.Runs 2 ∧ overlapped.Runs 4 ∧ SweptBetween overlapping 2 4) ∧
    ((3, 2) ∈ overlapped.waiting ∧
      ⟨3, 2, .ok ranCore⟩ ∈ (((overlapped.run [.call [lib]]).step
        (.finish 2 (.ok (holding [core])))).run [.deliver 2, .deliver 3]).receipts) ∧
    (∃ x' ≠ 2, (x', 2) ∈ overlapped.waiting ∧
      (overlapped.step (.cancel 2)).cache.running? 2 = some x') ∧
    (⟨1, 1, .ok keptLib⟩ ∈ overlapped.receipts ∧ Asks overlapping 1 keptLib.key) := by
  obtain ⟨apart, lands, keyed⟩ := single_flight overlapping
  have runs : overlapped.cache.running? 2 = some 2 := by decide +kernel
  have runs' : overlapped.cache.running? 3 = some 4 := by decide +kernel
  have asks : Asks overlapping 2 (.ofRoots [core]) := ⟨[core], rfl, rfl⟩
  have asks' : Asks overlapping 4 (.ofRoots [core]) := ⟨[core], rfl, rfl⟩
  have waits : (3, 2) ∈ overlapped.waiting := by decide +kernel
  have received : ⟨1, 1, .ok keptLib⟩ ∈ overlapped.receipts := by decide +kernel
  obtain ⟨⟨k, asked, served⟩, takeover⟩ := lands 2 2 3 runs waits
  obtain ⟨-, -, landed⟩ := served [.call [lib]] (by simp) (by simp) (by simp)
  obtain ⟨-, gets⟩ := landed (.ok (holding [core])) [.deliver 2, .deliver 3]
  have key : k = .ofRoots [core] := asked.unique ⟨[core], rfl, rfl⟩
  subst key
  refine ⟨⟨⟨2, runs⟩, ⟨3, runs'⟩, ?_⟩, ⟨waits, gets (by simp) (by simp)⟩, takeover (by decide),
    ⟨received, keyed _ received _ rfl⟩⟩
  exact (apart 2 4 _ ⟨2, runs⟩ ⟨3, runs'⟩ asks asks').1 (by decide)

end Depot
