import Depot.Proofs.Cache.Accounts

/-!
# Slots under other names

Calls and slots are numbered as they come, and the numbers mean nothing else. Two caches are alike
if the slots of the one, under other numbers, are those of the other as far as they can be seen:
one call is left out of account, failed slots count as out of the map, and some slots of the first
cache, which are listed, have no counterpart.
-/

namespace Depot

def CachedResolution.renumber (ρ : Nat → Nat) (x : CachedResolution) : CachedResolution :=
  { x with number := ρ x.number }

@[simp] theorem CachedResolution.dependsOn_renumber (ρ : Nat → Nat) (x : CachedResolution)
    (c : Coordinate) : (x.renumber ρ).dependsOn c = x.dependsOn c := rfl

/-- A receipt under other numbers of calls and slots. -/
def Receipt.rename (ι ρ : Nat → Nat) (a : Receipt) : Receipt :=
  ⟨ι a.call, ρ a.slot, a.outcome.map (CachedResolution.renumber ρ)⟩

theorem Receipt.rename_congr {ι ρ ρ' : Nat → Nat} {a : Receipt}
    (signed : ∀ x, a.outcome = .ok x → x.number = a.slot) (same : ρ a.slot = ρ' a.slot) :
    a.rename ι ρ = a.rename ι ρ' := by
  unfold rename
  match ho : a.outcome with
  | .error _ => simp [same, Except.map]
  | .ok x => simp [same, Except.map, CachedResolution.renumber, signed x ho]

theorem CachedResolution.renumber_eq_self {ρ : Nat → Nat} {x : CachedResolution}
    (same : ρ x.number = x.number) : x.renumber ρ = x := by
  rw [renumber, same]

theorem Receipt.rename_eq_self {ι ρ : Nat → Nat} {a : Receipt} (call : ι a.call = a.call)
    (slot : ρ a.slot = a.slot) (signed : ∀ x, a.outcome = .ok x → x.number = a.slot) :
    a.rename ι ρ = a := by
  obtain ⟨i, number, o⟩ := a
  unfold rename
  match o with
  | .error _ => simp_all [Except.map]
  | .ok x =>
    have same : ρ x.number = x.number := by rw [signed x rfl, slot]
    simp_all [Except.map, CachedResolution.renumber_eq_self]

theorem filter_ne_erase (c d : Nat) (l : List Nat) :
    (l.filter (· ≠ c)).erase d = (l.erase d).filter (· ≠ c) := by
  induction l with
  | nil => rfl
  | cons a l ih =>
    by_cases ha : a = d <;> by_cases hc : a = c
    · subst ha hc
      simp
    · subst ha
      simp [hc]
    · subst hc
      simpa [ha, List.erase_cons] using ih
    · simpa [ha, hc, List.erase_cons] using ih

theorem filter_erase_self (c : Nat) (l : List Nat) :
    (l.erase c).filter (· ≠ c) = l.filter (· ≠ c) := by
  rw [← filter_ne_erase]
  exact List.erase_of_not_mem (by simp)

theorem filter_erase_filter (c d : Nat) (l : List Nat) :
    ((l.filter (· ≠ c)).erase d).filter (· ≠ c) = (l.erase d).filter (· ≠ c) := by
  rw [filter_ne_erase, List.filter_filter]
  simp

namespace Slot

variable {ι ρ ρ' : Nat → Nat} {s t : Slot} {c : Nat}

/-- A slot under other numbers of calls and slots. -/
def rename (ι ρ : Nat → Nat) (s : Slot) : Slot where
  number := ρ s.number
  key := s.key
  mapped := s.mapped
  callers := s.callers.map ι
  outcome := s.outcome.map fun p => (ι p.1, p.2.map (CachedResolution.renumber ρ))

/-- A slot as it is seen if one call is left out of account. A failed slot might as well be out of
the map: the next call for its key takes it out, and nothing else makes use of it. -/
def without (c : Nat) (s : Slot) : Slot :=
  { s with callers := s.callers.filter (· ≠ c), mapped := s.mapped && !s.failed }

@[simp] theorem mapped_rename : (s.rename ι ρ).mapped = s.mapped := rfl

@[simp] theorem failed_rename : (s.rename ι ρ).failed = s.failed := by
  match ho : s.outcome with
  | none => simp [rename, failed, ho]
  | some (_, .ok x) => simp [rename, failed, ho, Except.map]
  | some (_, .error _) => simp [rename, failed, ho, Except.map]

@[simp] theorem completed?_rename :
    (s.rename ι ρ).completed? = s.completed?.map (CachedResolution.renumber ρ) := by
  match ho : s.outcome with
  | none => simp [rename, completed?, ho]
  | some (_, .ok x) => simp [rename, completed?, ho, Except.map]
  | some (_, .error _) => simp [rename, completed?, ho, Except.map]

@[simp] theorem outdated_rename (x : Coordinate) : (s.rename ι ρ).outdated x = s.outdated x := by
  match ho : s.outcome with
  | none => simp [rename, outdated, ho]
  | some (_, .ok r) => simp [rename, outdated, ho, Except.map]
  | some (_, .error _) => simp [rename, outdated, ho, Except.map]

theorem without_of_not_mem (absent : c ∉ s.callers) (unfailed : s.failed = false) :
    s.without c = s := by
  have callers : s.callers.filter (· ≠ c) = s.callers :=
    List.filter_eq_self.mpr fun d hd => decide_eq_true fun same => absent (same ▸ hd)
  unfold without
  rw [callers, unfailed, Bool.not_false, Bool.and_true]

@[simp] theorem failed_without : (s.without c).failed = s.failed := rfl

@[simp] theorem without_without : (s.without c).without c = s.without c := by
  simp [without, failed]

@[simp] theorem completed?_without : (s.without c).completed? = s.completed? := rfl

@[simp] theorem outdated_without (x : Coordinate) : (s.without c).outdated x = s.outdated x := rfl

theorem reachable_without (mapped : s.mapped = true) (unfailed : s.failed = false) :
    (s.without c).reachable = true := by simp [reachable, without, mapped, unfailed]

theorem without_unmap (failed : s.failed = true) :
    ({ s with mapped := false } : Slot).without c = s.without c := by
  unfold without
  rw [show ({ s with mapped := false } : Slot).failed = s.failed from rfl, failed]
  simp

theorem without_erase : ({ s with callers := s.callers.erase c } : Slot).without c = s.without c := by
  unfold without
  rw [filter_erase_self]
  rfl

theorem failed_of_outdated {x : Coordinate} (h : s.outdated x = true) : s.failed = false := by
  match ho : s.outcome with
  | none => simp [failed, ho]
  | some (_, .ok r) => simp [failed, ho]
  | some (_, .error _) => simp [outdated, ho] at h

theorem failed_of_completed? (h : s.completed?.isSome = true) : s.failed = false := by
  match ho : s.outcome with
  | none => simp [failed, ho]
  | some (_, .ok r) => simp [failed, ho]
  | some (_, .error _) => simp [completed?, ho] at h

/-- A resolution has the number of its slot, so only that number counts. -/
theorem rename_congr (signed : s.Signed) (same : ρ s.number = ρ' s.number) :
    s.rename ι ρ = s.rename ι ρ' := by
  unfold rename
  match ho : s.outcome with
  | none => simp [same]
  | some (_, .error _) => simp [same, Except.map]
  | some (runner, .ok x) =>
    have number := (signed x (by simp [completed?, ho])).1
    simp [same, Except.map, CachedResolution.renumber, number]

theorem rename_eq_self (signed : s.Signed) (callers : ∀ i ∈ s.callers, ι i = i)
    (number : ρ s.number = s.number) (runner : ∀ i o, s.outcome = some (i, o) → ι i = i) :
    s.rename ι ρ = s := by
  have sits : s.callers.map ι = s.callers :=
    (List.map_congr_left callers).trans (List.map_id _)
  have outcome : (s.outcome.map fun p => (ι p.1, p.2.map (CachedResolution.renumber ρ))) =
      s.outcome := by
    match ho : s.outcome with
    | none => rfl
    | some (i, .error _) => simp [runner i _ ho, Except.map]
    | some (i, .ok x) =>
      have same : ρ x.number = x.number := by
        rw [(signed x (by simp [completed?, ho])).1, number]
      simp [runner i _ ho, Except.map, CachedResolution.renumber_eq_self same]
  unfold rename
  rw [sits, outcome, number]

end Slot

open Slot

/-- The slots that can be seen if one call is left out of account. -/
def seen (c : Nat) (slots : List Slot) : List Slot := (slots.map (Slot.without c)).filter reachable

section Seen

variable {c : Nat} {slots : List Slot} {s : Slot} {f : Slot → Slot}

theorem mem_seen : s ∈ seen c slots ↔ (∃ r ∈ slots, r.without c = s) ∧ s.reachable = true := by
  simp [seen]

@[simp] theorem seen_append (slots others : List Slot) :
    seen c (slots ++ others) = seen c slots ++ seen c others := by simp [seen]

theorem seen_map_congr {g : Slot → Slot} (same : ∀ s ∈ slots, (f s).without c = (g s).without c) :
    seen c (slots.map f) = seen c (slots.map g) := by
  unfold seen
  rw [List.map_map, List.map_map]
  exact congrArg (List.filter reachable) (List.map_congr_left same)

/-- Slots that are dropped could not be seen. -/
theorem seen_map_filter (shown : ∀ s, ((f s).without c).reachable = true → s.reachable = true) :
    seen c ((slots.filter reachable).map f) = seen c (slots.map f) := by
  induction slots with
  | nil => rfl
  | cons s slots ih =>
    cases hs : s.reachable with
    | true =>
      simp only [seen, List.filter_cons, hs, if_true, List.map_cons] at ih ⊢
      rw [ih]
    | false =>
      have hidden : ((f s).without c).reachable = false :=
        Bool.eq_false_iff.mpr fun now => Bool.noConfusion (hs.symm.trans (shown s now))
      simpa only [seen, List.filter_cons, hs, hidden, List.map_cons, Bool.false_eq_true,
        if_false] using ih

theorem reachable_of_without (h : (s.without c).reachable = true) : s.reachable = true := by
  simp only [reachable, Bool.or_eq_true, Bool.not_eq_true', List.isEmpty_eq_false_iff] at h ⊢
  rcases h with mapped | callers
  · exact .inl (Bool.and_eq_true_iff.mp mapped).1
  · exact .inr fun none => callers (by simp [without, none])

@[simp] theorem seen_filter_reachable : seen c (slots.filter reachable) = seen c slots := by
  have same : seen c ((slots.filter reachable).map id) = seen c (slots.map id) :=
    seen_map_filter fun s => reachable_of_without
  rwa [List.map_id, List.map_id] at same

@[simp] theorem seen_seen : seen c (seen c slots) = seen c slots := by
  induction slots with
  | nil => rfl
  | cons s slots ih =>
    cases hs : (s.without c).reachable with
    | true =>
      simp only [seen, List.map_cons, List.filter_cons, hs, if_true, without_without] at ih ⊢
      rw [ih]
    | false =>
      simpa only [seen, List.map_cons, List.filter_cons, hs, Bool.false_eq_true, if_false] using ih

/-- What is done to slots one by one so that it makes no difference what cannot be seen. -/
structure Discreet (c : Nat) (slots : List Slot) (f : Slot → Slot) : Prop where
  without : ∀ s ∈ slots, (f (s.without c)).without c = (f s).without c
  reachable : ∀ s ∈ slots, ((f s).without c).reachable = true → (s.without c).reachable = true

theorem seen_map (h : Discreet c slots f) :
    seen c (slots.map f) = seen c ((seen c slots).map f) := by
  induction slots with
  | nil => rfl
  | cons s slots ih =>
    have ih := ih ⟨fun r hr => h.without r (List.mem_cons_of_mem s hr),
      fun r hr => h.reachable r (List.mem_cons_of_mem s hr)⟩
    have same := h.without s List.mem_cons_self
    have shown := h.reachable s List.mem_cons_self
    cases hs : (s.without c).reachable with
    | true =>
      simp only [seen, List.map_cons, List.filter_cons, hs, if_true, same] at ih ⊢
      rw [ih]
    | false =>
      have hidden : ((f s).without c).reachable = false := by
        rw [hs] at shown
        exact Bool.eq_false_iff.mpr fun now => Bool.noConfusion (shown now)
      simp only [seen, List.map_cons, List.filter_cons, hs, hidden] at ih ⊢
      exact ih

/-- What can be seen can be counted. -/
theorem countP_seen {p : Slot → Bool} (same : ∀ s, p (s.without c) = p s)
    (shown : ∀ s, p s = true → (s.without c).reachable = true) :
    (seen c slots).countP p = slots.countP p := by
  rw [seen, List.countP_filter, List.countP_map]
  refine List.countP_congr fun s _ => ?_
  simp only [Function.comp, same, Bool.and_eq_true, and_iff_left_iff_imp]
  exact shown s

end Seen

/-- The slots of two caches, under other numbers and up to those that are listed. -/
def Alike (c : Nat) (ι ρ : Nat → Nat) (extra ss us : List Slot) : Prop :=
  (seen c ss).Perm (extra ++ seen c (us.map (Slot.rename ι ρ)))

namespace Alike

variable {c : Nat} {ι ρ ρ' : Nat → Nat} {extra ss us : List Slot} {s r : Slot} {f g : Slot → Slot}

theorem congr (h : Alike c ι ρ extra ss us) (same : ∀ s ∈ us, s.rename ι ρ = s.rename ι ρ') :
    Alike c ι ρ' extra ss us := by
  unfold Alike at h ⊢
  rwa [← List.map_congr_left same]

theorem dropped (h : Alike c ι ρ extra ss us) :
    Alike c ι ρ extra (ss.filter reachable) (us.filter reachable) := by
  have same : seen c ((us.filter reachable).map (Slot.rename ι ρ)) =
      seen c (us.map (Slot.rename ι ρ)) :=
    seen_map_filter fun s shown => by simpa [reachable, rename] using reachable_of_without shown
  unfold Alike at h ⊢
  rwa [same, seen_filter_reachable]

/-- A slot is added on both sides. -/
theorem append (h : Alike c ι ρ extra ss us) (s : Slot) :
    Alike c ι ρ extra (ss ++ [s.rename ι ρ]) (us ++ [s]) := by
  unfold Alike at h ⊢
  rw [List.map_append, seen_append, seen_append, ← List.append_assoc]
  exact h.append_right _

/-- What was listed gets a counterpart. -/
theorem append_listed (h : Alike c ι ρ [s.rename ι ρ] ss us)
    (shown : seen c [s.rename ι ρ] = [s.rename ι ρ]) : Alike c ι ρ [] ss (us ++ [s]) := by
  unfold Alike at h ⊢
  rw [List.map_append, List.map_singleton, seen_append, shown]
  exact h.trans List.perm_append_comm

/-- What is done to both sides at once. -/
theorem map (h : Alike c ι ρ extra ss us) (discreet : Discreet c ss f)
    (discreet' : Discreet c (us.map (Slot.rename ι ρ)) f)
    (same : ∀ s ∈ us, f (s.rename ι ρ) = (g s).rename ι ρ) :
    Alike c ι ρ (seen c (extra.map f)) (ss.map f) (us.map g) := by
  have renamed : (us.map g).map (Slot.rename ι ρ) = (us.map (Slot.rename ι ρ)).map f := by
    rw [List.map_map, List.map_map]
    exact List.map_congr_left fun s hs => (same s hs).symm
  unfold Alike
  rw [renamed, seen_map discreet, seen_map discreet', ← seen_append, ← List.map_append]
  exact ((List.Perm.map f h).map (Slot.without c)).filter reachable

/-- What can be seen on the right has a counterpart on the left. -/
theorem exists_left (h : Alike c ι ρ extra ss us) (hs : s ∈ us)
    (shown : ((s.rename ι ρ).without c).reachable = true) :
    ∃ r ∈ ss, r.without c = (s.rename ι ρ).without c := by
  have mem : (s.rename ι ρ).without c ∈ seen c ss :=
    h.mem_iff.mpr (List.mem_append_right _ (mem_seen.mpr
      ⟨⟨_, List.mem_map_of_mem hs, rfl⟩, shown⟩))
  exact (mem_seen.mp mem).1

/-- What can be seen on the left has a counterpart on the right or is listed. -/
theorem exists_right (h : Alike c ι ρ extra ss us) (hr : r ∈ ss)
    (shown : (r.without c).reachable = true) :
    r.without c ∈ extra ∨ ∃ s ∈ us, r.without c = (s.rename ι ρ).without c := by
  have mem := h.mem_iff.mp (mem_seen.mpr ⟨⟨r, hr, rfl⟩, shown⟩)
  rcases List.mem_append.mp mem with listed | mem
  · exact .inl listed
  · obtain ⟨⟨s', hs', same⟩, -⟩ := mem_seen.mp mem
    obtain ⟨s, hs, rfl⟩ := List.mem_map.mp hs'
    exact .inr ⟨s, hs, same.symm⟩

/-- What is counted in the map, failed slots apart. -/
theorem countP (h : Alike c ι ρ extra ss us) {p : Slot → Bool}
    (unfailed : ∀ s, p s = true → s.failed = false) (same : ∀ s, p (s.without c) = p s)
    (renamed : ∀ s, p (s.rename ι ρ) = p s) :
    ss.countP (fun s => s.mapped && p s) =
      extra.countP (fun s => s.mapped && p s) + us.countP fun s => s.mapped && p s := by
  have blind : ∀ s : Slot, ((s.without c).mapped && p (s.without c)) = (s.mapped && p s) := by
    intro s
    rw [same]
    cases hp : p s with
    | false => simp
    | true => simp [without, unfailed s hp]
  have shown : ∀ s : Slot, (s.mapped && p s) = true → (s.without c).reachable = true := by
    intro s hs
    obtain ⟨mapped, hp⟩ := Bool.and_eq_true_iff.mp hs
    exact reachable_without mapped (unfailed s hp)
  rw [← countP_seen blind shown, h.countP_eq, List.countP_append, countP_seen blind shown,
    List.countP_map]
  congr 1
  exact List.countP_congr fun s _ => by simp [renamed]

end Alike

/-! ### What is done to slots -/

namespace Slot

variable {c : Nat} {ι ρ : Nat → Nat} {slots : List Slot} {s : Slot}

/-- Callers come and go at some slots, which stay in the map or not. -/
def revise (here : Nat → Bool) (seats : List Nat → List Nat) (keep : Slot → Bool) (s : Slot) :
    Slot :=
  if here s.number then { s with callers := seats s.callers, mapped := s.mapped && keep s } else s

/-- What the end of a run does to its slot. -/
def conclude (number : Nat) (o : Outcome) (s : Slot) : Slot :=
  if s.number = number then
    match s.callers with
    | [] => s
    | runner :: _ => { s with outcome := some (runner, o) }
  else s

variable {here here' : Nat → Bool} {seats seats' : List Nat → List Nat} {keep keep' : Slot → Bool}
  {number : Nat} {o : Outcome}

theorem revise_elsewhere (h : here s.number = false) : revise here seats keep s = s := by
  simp [revise, h]

theorem revise_everywhere (keep : Slot → Bool) :
    revise (fun _ => true) id keep = fun s => { s with mapped := s.mapped && keep s } := by
  funext s
  simp [revise]

theorem slots_modify (m : Cache) (number : Nat) (seats : List Nat → List Nat) (b : Bool) :
    (m.modify number fun s =>
      { s with callers := seats s.callers, mapped := s.mapped && b }).slots =
      m.slots.map (revise (fun i => decide (i = number)) seats fun _ => b) := by
  refine List.map_congr_left fun s _ => ?_
  by_cases here : s.number = number <;> simp [revise, here]

theorem slots_modify_callers (m : Cache) (number : Nat) (seats : List Nat → List Nat) :
    (m.modify number fun s => { s with callers := seats s.callers }).slots =
      m.slots.map (revise (fun i => decide (i = number)) seats fun _ => true) := by
  simpa using slots_modify m number seats true

theorem discreet_revise
    (apart : ∀ l, (seats (l.filter (· ≠ c))).filter (· ≠ c) = (seats l).filter (· ≠ c))
    (kept : ∀ s, keep (s.without c) = keep s)
    (shown : ∀ s ∈ slots, here s.number = true → (s.without c).callers = [] →
      (seats s.callers).filter (· ≠ c) = [] ∨ (s.without c).mapped = true) :
    Discreet c slots (revise here seats keep) := by
  constructor
  · intro s _
    have kept := kept s
    cases hn : here s.number with
    | false => simp [revise, without, hn, failed]
    | true =>
      simp only [revise, hn, if_true, kept, show (s.without c).number = s.number from rfl]
      cases hf : s.failed <;> simp_all [without, failed]
  · intro s hs now
    cases hn : here s.number with
    | false => simpa [revise, hn] using now
    | true =>
      by_cases empty : (s.without c).callers = []
      · rcases shown s hs hn empty with none | mapped
        · simp only [revise, hn, if_true, reachable, without, none, failed, Bool.and_eq_true,
            List.isEmpty_nil, Bool.not_true, Bool.or_false] at now
          simp [reachable, without, failed, now]
        · simp [reachable, mapped]
      · simp [reachable, empty]

theorem revise_rename (numbers : here (ρ s.number) = here' s.number)
    (callers : seats (s.callers.map ι) = (seats' s.callers).map ι)
    (kept : keep (s.rename ι ρ) = keep' s) :
    revise here seats keep (s.rename ι ρ) = (revise here' seats' keep' s).rename ι ρ := by
  unfold revise
  rw [show (s.rename ι ρ).number = ρ s.number from rfl, numbers, kept]
  split
  · simp only [rename, callers]
  · rfl

/-- Where nobody waits, nothing ends. -/
theorem conclude_of_empty (none : s.callers = []) : conclude number o s = s := by
  simp [conclude, none]

theorem discreet_conclude
    (h : ∀ s ∈ slots, s.number = number → c ∉ s.callers ∧ s.outcome = none) :
    Discreet c slots (conclude number o) := by
  constructor <;> intro s hs
  · by_cases here : s.number = number
    · obtain ⟨absent, running⟩ := h s hs here
      rw [without_of_not_mem absent (by simp [failed, running])]
    · simp [conclude, without, here, failed]
  · by_cases here : s.number = number
    · obtain ⟨absent, running⟩ := h s hs here
      rw [without_of_not_mem absent (by simp [failed, running])]
      cases hc : s.callers with
      | nil => simp [conclude, here, hc, reachable, without, failed, running]
      | cons runner others => simp [reachable, hc]
    · simp [conclude, here]

theorem conclude_rename (injective : ρ.Injective) :
    conclude (ρ number) (o.map (CachedResolution.renumber ρ)) (s.rename ι ρ) =
      (conclude number o s).rename ι ρ := by
  by_cases here : s.number = number
  · cases hc : s.callers with
    | nil => simp [conclude, rename, here, hc]
    | cons runner others => simp [conclude, rename, here, hc]
  · have other : ρ s.number ≠ ρ number := fun same => here (injective same)
    simp [conclude, rename, here, other]

end Slot

namespace Alike

variable {c : Nat} {ι ρ : Nat → Nat} {extra ss us : List Slot}

/-- Callers go, or the slots leave the map. -/
theorem revise (h : Alike c ι ρ extra ss us) (here here' : Nat → Bool)
    (seats seats' : List Nat → List Nat) (keep keep' : Slot → Bool)
    (apart : ∀ l, (seats (l.filter (· ≠ c))).filter (· ≠ c) = (seats l).filter (· ≠ c))
    (none : seats [] = []) (kept : ∀ s, keep (s.without c) = keep s)
    (numbers : ∀ i, here (ρ i) = here' i) (callers : ∀ l, seats (l.map ι) = (seats' l).map ι)
    (renamed : ∀ s, keep (s.rename ι ρ) = keep' s) :
    Alike c ι ρ (seen c (extra.map (Slot.revise here seats keep)))
      (ss.map (Slot.revise here seats keep)) (us.map (Slot.revise here' seats' keep')) := by
  have shown : ∀ s : Slot, (s.without c).callers = [] →
      (seats s.callers).filter (· ≠ c) = [] ∨ (s.without c).mapped = true := by
    intro s empty
    have empty : s.callers.filter (· ≠ c) = [] := empty
    rw [← apart, empty, none]
    exact .inl rfl
  refine h.map (discreet_revise apart kept fun s _ _ => shown s)
    (discreet_revise apart kept fun s _ _ => shown s) fun s _ => ?_
  exact revise_rename (numbers s.number) (callers s.callers) (renamed s)

/-- A call sits down on slots that can be seen anyway. -/
theorem join (h : Alike c ι ρ extra ss us) (call number : Nat) (injective : ρ.Injective)
    (shown : ∀ s ∈ ss, s.number = ρ number → (s.without c).mapped = true)
    (shown' : ∀ s ∈ us, s.number = number → ((s.rename ι ρ).without c).mapped = true) :
    Alike c ι ρ
      (seen c (extra.map (Slot.revise (fun i => decide (i = ρ number)) (· ++ [ι call]) fun _ => true)))
      (ss.map (Slot.revise (fun i => decide (i = ρ number)) (· ++ [ι call]) fun _ => true))
      (us.map (Slot.revise (fun i => decide (i = number)) (· ++ [call]) fun _ => true)) := by
  have apart : ∀ l : List Nat,
      (l.filter (· ≠ c) ++ [ι call]).filter (· ≠ c) = (l ++ [ι call]).filter (· ≠ c) := by simp
  refine h.map (discreet_revise apart (fun _ => rfl) fun s hs here _ => .inr ?_)
    (discreet_revise apart (fun _ => rfl) fun s hs here _ => .inr ?_) fun s _ => ?_
  · exact shown s hs (of_decide_eq_true here)
  · obtain ⟨r, hr, rfl⟩ := List.mem_map.mp hs
    exact shown' r hr (injective (of_decide_eq_true here))
  · exact revise_rename (by simp [injective.eq_iff]) (by simp) rfl

/-- A run ends on both sides. -/
theorem conclude (h : Alike c ι ρ extra ss us) (number : Nat) (o : Outcome)
    (injective : ρ.Injective) (other : ∀ i, ι i ≠ c)
    (running : ∀ s ∈ ss, s.number = ρ number → c ∉ s.callers ∧ s.outcome = none)
    (running' : ∀ s ∈ us, s.number = number → s.outcome = none) :
    Alike c ι ρ
      (seen c (extra.map (Slot.conclude (ρ number) (o.map (CachedResolution.renumber ρ)))))
      (ss.map (Slot.conclude (ρ number) (o.map (CachedResolution.renumber ρ))))
      (us.map (Slot.conclude number o)) := by
  refine h.map (discreet_conclude running) (discreet_conclude fun s hs here => ?_)
    fun s _ => conclude_rename injective
  obtain ⟨r, hr, rfl⟩ := List.mem_map.mp hs
  refine ⟨fun sits => ?_, ?_⟩
  · obtain ⟨i, -, same⟩ := List.mem_map.mp sits
    exact other i same
  · simp [rename, running' r hr (injective here)]

end Alike

end Depot
