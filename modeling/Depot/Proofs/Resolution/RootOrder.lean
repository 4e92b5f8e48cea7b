import Depot.Proofs.Resolution.Completeness
import Depot.Proofs.Resolution.Failures

/-!
# The order of the roots

Which version of a package is selected may depend on the order of the roots, and what is excluded,
too. Repetitions make no difference. And where a run meets one version of each package only and
follows no dependency that excludes anything, it is the same for the packages in what order the
roots come: the run stays inside what any other such run selects.
-/

namespace Depot

variable {cat : Catalog} {scopes : ScopeSet} {roots roots' : List Coordinate}

theorem firstsBy_of_nodup {α β : Type} [DecidableEq β] {key : α → β} {as : List α}
    (h : (as.map key).Nodup) : firstsBy key as = as := by
  induction as with
  | nil => rfl
  | cons a as ih =>
    obtain ⟨new, distinct⟩ := List.nodup_cons.mp h
    rw [firstsBy, ih distinct]
    refine congrArg (a :: ·) (List.filter_eq_self.mpr fun b hb => ?_)
    simpa using fun same : key b = key a => new (same ▸ List.mem_map_of_mem hb)

theorem firsts_eq_firstsBy {α : Type} [DecidableEq α] (as : List α) : firsts as = firstsBy id as := by
  induction as with
  | nil => rfl
  | cons a as ih => rw [firsts, firstsBy, ih]; rfl

theorem firsts_of_nodup {α : Type} [DecidableEq α] {as : List α} (h : as.Nodup) :
    firsts as = as := by
  rw [firsts_eq_firstsBy]
  exact firstsBy_of_nodup (by rwa [List.map_id])

/-- The first occurrences of the roots decide. -/
theorem outcome_of_firsts (named : roots ≠ []) (same : firsts roots = firsts roots') :
    (resolve cat scopes roots).outcome = (resolve cat scopes roots').outcome := by
  have named' : roots' ≠ [] := by
    rintro rfl
    cases roots with
    | nil => exact named rfl
    | cons c cs => simp [firsts] at same
  obtain ⟨n, run⟩ := Queue.exists_run cat scopes named
  have start : Queue.start roots = Queue.start roots' := by simp only [Queue.start, same]
  exact (Queue.outcome_of_run named' (start ▸ run)).symm

/-! ### What all that is met has in common -/

variable {P : Pending → Prop}

theorem Trace.forall_mem {r : Resolution} {level items : List Pending}
    (h : Trace cat scopes r level items) (start : ∀ p ∈ level, P p)
    (step : ∀ p ∈ (r.meetAll items).2, P p → ∀ q ∈ offspring cat scopes p, P q) :
    ∀ p ∈ items, P p := by
  induction h with
  | nil r => simp
  | @level r p ps rest later ih =>
    rw [Resolution.meetAll_append] at step
    have next : ∀ q ∈ (r.meetAll (p :: ps)).2.flatMap (offspring cat scopes), P q := by
      intro q hq
      obtain ⟨a, ha, hq⟩ := List.mem_flatMap.mp hq
      exact step a (List.mem_append_left _ ha) (start a (Resolution.mem_of_mem_meetAll ha)) q hq
    intro q hq
    rcases List.mem_append.mp hq with hq | hq
    · exact start q hq
    · exact ih next (fun a ha => step a (List.mem_append_right _ ha)) q hq

theorem Explored.forall_mem {items : List Pending} (h : Explored cat scopes roots items)
    (start : ∀ c ∈ roots, P (.root c))
    (step : ∀ p ∈ admitted items, P p → ∀ q ∈ offspring cat scopes p, P q) :
    ∀ p ∈ items, P p := by
  refine h.trace.forall_mem (fun p hp => ?_) step
  obtain ⟨c, hc, rfl⟩ := List.mem_map.mp hp
  exact start c (mem_firsts.mp hc)

theorem exists_explored_of_forall (named : roots ≠ [])
    (step : ∀ p, P p → ∀ q ∈ offspring cat scopes p, P q)
    (answers : ∀ p, P p → cat.Answers p.coordinate) (start : ∀ c ∈ roots, P (.root c)) :
    ∃ items, Explored cat scopes roots items ∧ ∀ p ∈ items, P p := by
  have level : ∀ p ∈ (firsts roots).map Pending.root, P p := by
    intro p hp
    obtain ⟨c, hc, rfl⟩ := List.mem_map.mp hp
    exact start c (mem_firsts.mp hc)
  have reached : ∃ s, (resolve cat scopes roots).Reached s := by
    unfold resolve
    rw [if_neg (by simpa using named)]
    exact exists_reached_of_forall step answers level
  obtain ⟨s, reached⟩ := reached
  obtain ⟨-, items, explored, -⟩ := exists_explored reached
  exact ⟨items, explored, explored.forall_mem start fun p _ => step p⟩

/-! ### Conflicts -/

theorem Coordinate.eq_of_identity {c d : Coordinate} (identity : c.identity = d.identity)
    (version : c.version = d.version) : c = d := by
  simp only [Coordinate.identity, Identity.mk.injEq] at identity
  exact Coordinate.ext identity.1 identity.2.1 version identity.2.2

theorem Conflict.record_eq_nil_iff {selected : Coordinate} {depth : Nat} {o : Omission}
    {log : List Conflict} :
    record selected depth o log = [] ↔ log = [] ∧ o.version = selected.version := by
  unfold record
  by_cases same : o.version = selected.version
  · simp [same]
  · rw [if_neg same]
    cases log <;> simp [same]
    split <;> simp

namespace Resolution

theorem mem_of_get? {r : Resolution} {i : Identity} {e : Entry} (h : r.get? i = some e) :
    e ∈ r.entries ∧ e.identity = i :=
  ⟨List.mem_of_find?_eq_some h, by simpa using List.find?_some h⟩

/-- A package that is met leaves no conflict behind if there was none, and if nothing else of its
identity is selected. -/
theorem conflicts_meet {r : Resolution} {p : Pending} : (r.meet p).1.conflicts = [] ↔
    r.conflicts = [] ∧ ∀ e, r.get? p.identity = some e → e.coordinate = p.coordinate := by
  unfold meet
  cases found : r.get? p.identity with
  | none => cases p.excluded <;> simp
  | some e =>
    have identity := (mem_of_get? found).2
    simp only [Conflict.record_eq_nil_iff, Option.some.injEq, forall_eq']
    refine and_congr_right fun _ => ⟨fun same => ?_, fun same => ?_⟩
    · exact Coordinate.eq_of_identity identity same.symm
    · rw [same]
      rfl

theorem conflicts_of_meetAll {r : Resolution} {ps : List Pending}
    (h : (r.meetAll ps).1.conflicts = []) : r.conflicts = [] := by
  induction ps generalizing r with
  | nil => exact h
  | cons p ps ih => exact (conflicts_meet.mp (ih h)).1

/-- If a run logs no conflict, then all that it meets without excluding it is selected. -/
theorem mem_of_conflicts {r : Resolution} {ps : List Pending}
    (h : (r.meetAll ps).1.conflicts = []) : ∀ p ∈ ps, p.excluded = false →
      ∃ e ∈ (r.meetAll ps).1.entries, e.coordinate = p.coordinate := by
  induction ps generalizing r with
  | nil => simp
  | cons q ps ih =>
    rintro p (_ | ⟨_, hp⟩) unbarred
    · have none := (conflicts_meet.mp (conflicts_of_meetAll (r := (r.meet q).1) h)).2
      have now : ∃ e ∈ (r.meet q).1.entries, e.coordinate = q.coordinate := by
        unfold meet
        cases found : r.get? q.identity with
        | some e => exact ⟨e, (mem_of_get? found).1, none e found⟩
        | none => exact ⟨q.entry, by simp [unbarred], rfl⟩
      obtain ⟨e, he, same⟩ := now
      refine ⟨e, ?_, same⟩
      rw [meetAll_cons, entries_meetAll]
      exact List.mem_append_left _ he
    · exact ih h p hp unbarred

/-- If all that is met has one version for each identity, no conflict is logged. -/
theorem conflicts_meetAll {S : Coordinate → Prop}
    (single : ∀ c d, S c → S d → c.identity = d.identity → c = d) {r : Resolution}
    {ps : List Pending} (none : r.conflicts = []) (selected : ∀ e ∈ r.entries, S e.coordinate)
    (inside : ∀ p ∈ ps, S p.coordinate) : (r.meetAll ps).1.conflicts = [] := by
  induction ps generalizing r with
  | nil => exact none
  | cons p ps ih =>
    have here := inside p List.mem_cons_self
    refine ih (r := (r.meet p).1) ?_ ?_ fun q hq => inside q (List.mem_cons_of_mem p hq)
    · refine conflicts_meet.mpr ⟨none, fun e found => ?_⟩
      obtain ⟨he, identity⟩ := mem_of_get? found
      exact single _ _ (selected e he) here identity
    · intro e he
      rw [entries_meet] at he
      rcases List.mem_append.mp he with he | he
      · exact selected e he
      · obtain ⟨q, hq, rfl⟩ := List.mem_map.mp he
        rw [mem_of_mem_meet hq]
        exact here

/-- No version lost against another one, and nothing that the selected packages declare excludes
anything below it. -/
structure Calm (cat : Catalog) (scopes : ScopeSet) (r : Resolution) : Prop where
  conflicts : r.conflicts = []
  exclusions : ∀ e ∈ r.entries, ∀ m, cat.fetch e.coordinate = .ok m →
    ∀ d ∈ m.dependencies, d.scope ∈ scopes → d.exclusions = ∅

end Resolution

/-! ### Closed sets of packages -/

/-- A set of packages, one version of each, that has the roots and all that is declared in it. All
of it can be read, and nothing in it is excluded. -/
structure Closed (cat : Catalog) (scopes : ScopeSet) (roots : List Coordinate)
    (S : Coordinate → Prop) : Prop where
  roots : ∀ c ∈ roots, S c
  single : ∀ c d, S c → S d → c.identity = d.identity → c = d
  manifest : ∀ c, S c → ∃ m, cat.fetch c = .ok m ∧
    ∀ d ∈ m.dependencies, d.scope ∈ scopes → S d.coordinate ∧ d.exclusions = ∅

/-- A package that nothing above it excludes, and that excludes nothing itself. -/
def Pending.Bare (p : Pending) : Prop := p.inherited = ∅ ∧ p.declared = ∅

theorem Pending.Bare.not_excluded {p : Pending} (h : p.Bare) : p.excluded = false := by
  unfold excluded
  rw [h.1]
  exact decide_eq_false OrderedSet.not_mem_empty

theorem Pending.Bare.child {p : Pending} (h : p.Bare) {d : Dependency} (none : d.exclusions = ∅) :
    (p.child d).Bare := by
  refine ⟨?_, none⟩
  show p.inherited.union p.declared = ∅
  rw [h.1, h.2]
  rfl

namespace Closed

variable {S : Coordinate → Prop}

theorem of_mem (h : Closed cat scopes roots S) (same : ∀ c ∈ roots', c ∈ roots) :
    Closed cat scopes roots' S :=
  ⟨fun c hc => h.roots c (same c hc), h.single, h.manifest⟩

/-- A run over the roots succeeds, stays inside, and is calm. -/
theorem outcome (h : Closed cat scopes roots S) (named : roots ≠ []) :
    ∃ y, (resolve cat scopes roots).outcome = .ok y ∧ y.Calm cat scopes ∧
      ∀ c ∈ y.coordinates, S c := by
  have step : ∀ p : Pending, S p.coordinate → ∀ q ∈ offspring cat scopes p, S q.coordinate := by
    intro p hp q hq
    obtain ⟨m, hm, d, hd, followed, rfl⟩ := mem_offspring.mp hq
    obtain ⟨m', hm', inside⟩ := h.manifest _ hp
    cases hm.symm.trans hm'
    exact (inside d hd followed).1
  have answers : ∀ p : Pending, S p.coordinate → cat.Answers p.coordinate := by
    intro p hp e he
    obtain ⟨m, hm, -⟩ := h.manifest _ hp
    cases hm.symm.trans he
  obtain ⟨items, explored, inside⟩ := exists_explored_of_forall named step answers h.roots
  have selected : ∀ e ∈ (met items).entries, S e.coordinate := by
    intro e he
    rw [entries_met] at he
    obtain ⟨p, hp, rfl⟩ := List.mem_map.mp he
    exact inside p (Resolution.mem_of_mem_meetAll hp)
  refine ⟨met items, ?_, ⟨?_, ?_⟩, ?_⟩
  · rw [explored.outcome_eq named, Resolution.outcome_eq_ok_iff]
    refine ⟨List.filterMap_eq_nil_iff.mpr fun e he => ?_, rfl⟩
    obtain ⟨m, hm, -⟩ := h.manifest _ (selected e he)
    exact Catalog.failure?_eq_none_iff.mpr ⟨m, hm⟩
  · exact Resolution.conflicts_meetAll h.single rfl (by simp [Resolution.empty]) inside
  · intro e he m hm d hd followed
    obtain ⟨m', hm', inside⟩ := h.manifest _ (selected e he)
    cases hm.symm.trans hm'
    exact (inside d hd followed).2
  · intro c hc
    obtain ⟨e, he, rfl⟩ := List.mem_map.mp hc
    exact selected e he

end Closed

theorem entry_mem {items : List Pending} {p : Pending} (hp : p ∈ admitted items) :
    p.entry ∈ (met items).entries := by
  rw [entries_met]
  exact List.mem_map_of_mem hp

/-- If no selected package declares an exclusion, nothing that is met is concerned by one. -/
theorem Explored.bare {items : List Pending} (h : Explored cat scopes roots items)
    (exclusions : ∀ e ∈ (met items).entries, ∀ m, cat.fetch e.coordinate = .ok m →
      ∀ d ∈ m.dependencies, d.scope ∈ scopes → d.exclusions = ∅) : ∀ p ∈ items, p.Bare := by
  refine h.forall_mem (fun c _ => ⟨rfl, rfl⟩) fun p hp above q hq => ?_
  obtain ⟨m, hm, d, hd, followed, rfl⟩ := mem_offspring.mp hq
  exact above.child (exclusions _ (entry_mem hp) m hm d hd followed)

/-- What a calm run selects is closed. -/
theorem Resolution.Calm.closed {y : Resolution} (calm : y.Calm cat scopes)
    (h : (resolve cat scopes roots).outcome = .ok y) :
    Closed cat scopes roots (· ∈ y.coordinates) := by
  obtain ⟨named, items, explored, rfl⟩ := exists_explored (.inl h)
  rw [explored.outcome_eq named, outcome_eq_ok_iff] at h
  have read : ∀ p ∈ admitted items, ∃ m, cat.fetch p.coordinate = .ok m := by
    intro p hp
    exact Catalog.failure?_eq_none_iff.mp (List.filterMap_eq_nil_iff.mp h.1 _ (entry_mem hp))
  have bare := explored.bare calm.exclusions
  have there : ∀ p ∈ items, p.coordinate ∈ (met items).coordinates := by
    intro p hp
    obtain ⟨e, he, same⟩ := mem_of_conflicts calm.conflicts p hp (bare p hp).not_excluded
    exact same ▸ List.mem_map_of_mem he
  have of_coordinate : ∀ c ∈ (met items).coordinates, ∃ p ∈ admitted items, p.coordinate = c := by
    intro c hc
    obtain ⟨e, he, rfl⟩ := List.mem_map.mp hc
    rw [entries_met] at he
    obtain ⟨p, hp, rfl⟩ := List.mem_map.mp he
    exact ⟨p, hp, rfl⟩
  refine ⟨fun c hc => there _ (explored.root_mem hc), ?_, ?_⟩
  · intro c d hc hd identity
    obtain ⟨p, hp, rfl⟩ := of_coordinate c hc
    obtain ⟨q, hq, rfl⟩ := of_coordinate d hd
    rw [Explored.eq_of_identity hp hq identity]
  · intro c hc
    obtain ⟨p, hp, rfl⟩ := of_coordinate c hc
    obtain ⟨m, hm⟩ := read p hp
    refine ⟨m, hm, fun d hd followed => ⟨?_, ?_⟩⟩
    · exact there _ (explored.child_mem hp hm hd followed)
    · exact calm.exclusions _ (entry_mem hp) m hm d hd followed

theorem nodup_coordinates {y : Resolution} (h : (resolve cat scopes roots).Reached y) :
    y.coordinates.Nodup := by
  obtain ⟨-, items, -, rfl⟩ := exists_explored h
  have distinct := Explored.nodup_identities items
  rw [Resolution.coordinates, entries_met, List.map_map]
  exact List.Nodup.of_map Coordinate.identity (by rwa [List.map_map])

/-- A calm run selects the same packages for the same roots in another order. -/
theorem Resolution.Calm.perm {y : Resolution} (calm : y.Calm cat scopes)
    (h : (resolve cat scopes roots).outcome = .ok y) (same : ∀ c, c ∈ roots ↔ c ∈ roots') :
    ∃ y', (resolve cat scopes roots').outcome = .ok y' ∧ y'.Calm cat scopes ∧
      y.coordinates.Perm y'.coordinates := by
  have named : roots ≠ [] := (exists_explored (.inl h)).1
  have named' : roots' ≠ [] := by
    obtain ⟨c, hc⟩ := List.exists_mem_of_ne_nil _ named
    exact List.ne_nil_of_mem ((same c).mp hc)
  -- each of the two runs stays inside what the other one selects
  have closed := (calm.closed h).of_mem fun c hc => (same c).mpr hc
  obtain ⟨y', h', calm', inside⟩ := closed.outcome named'
  have closed' := (calm'.closed h').of_mem fun c hc => (same c).mp hc
  obtain ⟨z, hz, -, inside'⟩ := closed'.outcome named
  cases hz.symm.trans h
  refine ⟨y', h', calm', ?_⟩
  rw [List.perm_ext_iff_of_nodup (nodup_coordinates (.inl h)) (nodup_coordinates (.inl h'))]
  exact fun c => ⟨inside' c, inside c⟩

end Depot
