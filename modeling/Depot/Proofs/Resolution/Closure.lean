import Depot.Proofs.Resolution.RootOrder

/-!
# Resolved sets are closed

If nothing is excluded, a run ends with packages of which no two share an identity and which declare
no identity that is not among them. A run over such packages has nothing left to select: all that
they declare, in whatever version, loses against one of the roots. So it gives back the packages that
it was asked for.
-/

namespace Depot

variable {cat : Catalog} {scopes : ScopeSet} {roots cs : List Coordinate}

/-! ### Runs that stop at the roots -/

/-- Packages of different identities, all with a manifest. What they declare in the scopes that are
followed shares its identity with one of them. -/
structure Saturated (cat : Catalog) (scopes : ScopeSet) (cs : List Coordinate) : Prop where
  distinct : (cs.map Coordinate.identity).Nodup
  manifest : ∀ c ∈ cs, ∃ m, cat.fetch c = .ok m ∧ ∀ d ∈ m.dependencies, d.scope ∈ scopes →
    d.coordinate.identity ∈ cs.map Coordinate.identity

/-- Packages as roots, then all that they declare. -/
def upToDeclared (cat : Catalog) (scopes : ScopeSet) (cs : List Coordinate) : List Pending :=
  cs.map .root ++ (cs.map Pending.root).flatMap (offspring cat scopes)

/-- Roots of different identities are all admitted. -/
theorem admitted_roots (distinct : (cs.map Coordinate.identity).Nodup) :
    admitted (cs.map Pending.root) = cs.map Pending.root := by
  have open_roots : ((cs.map Pending.root).filter fun p => !p.excluded) = cs.map Pending.root := by
    refine List.filter_eq_self.mpr fun p hp => ?_
    obtain ⟨c, -, rfl⟩ := List.mem_map.mp hp
    rfl
  rw [admitted_eq, open_roots]
  exact firstsBy_of_nodup (by rwa [List.map_map])

/-- If all that is met has its identity selected, none of it is admitted. -/
theorem Resolution.meetAll_selected {r : Resolution} {ps : List Pending}
    (h : ∀ p ∈ ps, p.identity ∈ r.entries.map Entry.identity) : (r.meetAll ps).2 = [] := by
  refine List.eq_nil_iff_forall_not_mem.mpr fun p hp => ?_
  obtain ⟨e, he, same⟩ := List.mem_map.mp (h p (mem_of_mem_meetAll hp))
  exact get?_eq_none_iff.mp (get?_of_mem_meetAll hp) e he same

/-- A level of which nothing is admitted is the last one. -/
theorem Trace.last {r : Resolution} {level : List Pending} (none : (r.meetAll level).2 = []) :
    Trace cat scopes r level level := by
  cases level with
  | nil => exact .nil r
  | cons p ps =>
    have later : Trace cat scopes (r.meetAll (p :: ps)).1
        ((r.meetAll (p :: ps)).2.flatMap (offspring cat scopes)) [] := by
      rw [none]
      exact .nil _
    simpa using Trace.level later

namespace Saturated

theorem identity_of_mem_offspring (h : Saturated cat scopes cs) {p q : Pending}
    (hp : p ∈ cs.map Pending.root) (hq : q ∈ offspring cat scopes p) :
    q.identity ∈ cs.map Coordinate.identity := by
  obtain ⟨c, hc, rfl⟩ := List.mem_map.mp hp
  obtain ⟨m, hm, d, hd, followed, rfl⟩ := mem_offspring.mp hq
  obtain ⟨m', hm', inside⟩ := h.manifest c hc
  cases hm.symm.trans hm'
  exact inside d hd followed

theorem identities_met (h : Saturated cat scopes cs) :
    (met (cs.map Pending.root)).entries.map Entry.identity = cs.map Coordinate.identity := by
  rw [entries_met, admitted_roots h.distinct, List.map_map, List.map_map]
  rfl

theorem meetAll_declared (h : Saturated cat scopes cs) : ((met (cs.map Pending.root)).meetAll
    ((cs.map Pending.root).flatMap (offspring cat scopes))).2 = [] := by
  refine Resolution.meetAll_selected fun q hq => ?_
  obtain ⟨p, hp, hq⟩ := List.mem_flatMap.mp hq
  rw [h.identities_met]
  exact h.identity_of_mem_offspring hp hq

theorem admitted_upToDeclared (h : Saturated cat scopes cs) :
    admitted (upToDeclared cat scopes cs) = cs.map .root := by
  have none := h.meetAll_declared
  rw [met] at none
  rw [admitted, upToDeclared, Resolution.meetAll_append, none, List.append_nil]
  exact admitted_roots h.distinct

theorem explored (h : Saturated cat scopes cs) (named : cs ≠ []) :
    Explored cat scopes cs (upToDeclared cat scopes cs) where
  trace := by
    have first := admitted_roots h.distinct
    have declared := h.meetAll_declared
    obtain ⟨c, rest, rfl⟩ := List.exists_cons_of_ne_nil named
    rw [firsts_of_nodup (List.Nodup.of_map Coordinate.identity h.distinct)]
    refine .level ?_
    rw [admitted, List.map_cons] at first
    rw [first]
    exact .last declared
  answers p hp e he := by
    rw [h.admitted_upToDeclared] at hp
    obtain ⟨c, hc, rfl⟩ := List.mem_map.mp hp
    obtain ⟨m, hm, -⟩ := h.manifest c hc
    cases hm.symm.trans he

theorem outcome (h : Saturated cat scopes cs) (named : cs ≠ []) :
    ∃ y, (resolve cat scopes cs).outcome = .ok y ∧
      y.entries = cs.map fun c => ⟨c, 0, .jar, none⟩ := by
  refine ⟨met (upToDeclared cat scopes cs), ?_, ?_⟩
  · rw [(h.explored named).outcome_resolve named, h.admitted_upToDeclared,
      Resolution.outcome_eq_ok_iff]
    refine ⟨List.filterMap_eq_nil_iff.mpr fun p hp => ?_, rfl⟩
    obtain ⟨c, hc, rfl⟩ := List.mem_map.mp hp
    obtain ⟨m, hm, -⟩ := h.manifest c hc
    exact Catalog.failure?_eq_none_iff.mpr ⟨m, hm⟩
  · rw [entries_met, h.admitted_upToDeclared, List.map_map]
    rfl

end Saturated

/-! ### Runs in which nothing is excluded -/

/-- Where no selected package declares an exclusion, the run selects an identity for all that these
packages declare. -/
theorem saturated_of_outcome {r : Resolution} (h : (resolve cat scopes roots).outcome = .ok r)
    (exclusions : ∀ e ∈ r.entries, ∀ m, cat.fetch e.coordinate = .ok m →
      ∀ d ∈ m.dependencies, d.scope ∈ scopes → d.exclusions = ∅) :
    Saturated cat scopes r.coordinates := by
  obtain ⟨named, items, explored, rfl⟩ := exists_explored (.inl h)
  have bare := explored.bare exclusions
  have read := (complete_of_reached cat scopes roots (.inl h)).2 h
  have selected : (met items).coordinates = (admitted items).map Pending.coordinate := by
    rw [Resolution.coordinates, entries_met, List.map_map]
    rfl
  constructor
  · rw [selected, List.map_map]
    exact Explored.nodup_identities items
  · intro c hc
    rw [selected] at hc
    obtain ⟨p, hp, rfl⟩ := List.mem_map.mp hc
    obtain ⟨m, hm⟩ := read _ (entry_mem hp)
    refine ⟨m, hm, fun d hd followed => ?_⟩
    have met_child := explored.child_mem hp hm hd followed
    obtain ⟨e, he, same, -⟩ := explored.exists_entry met_child (bare _ met_child).not_excluded
    exact List.mem_map.mpr ⟨e.coordinate, List.mem_map_of_mem he, same⟩

/-- A set that was resolved without exclusions resolves to itself: with its packages as the roots
a run selects the same ones, in the same order and at no distance. Versions that they declare of each
other have no say in it. -/
theorem resolve_coordinates {r : Resolution} (h : (resolve cat scopes roots).outcome = .ok r)
    (exclusions : ∀ e ∈ r.entries, ∀ m, cat.fetch e.coordinate = .ok m →
      ∀ d ∈ m.dependencies, d.scope ∈ scopes → d.exclusions = ∅) :
    ∃ y, (resolve cat scopes r.coordinates).outcome = .ok y ∧ y.coordinates = r.coordinates ∧
      ∀ e ∈ y.entries, e.depth = 0 := by
  have named : r.coordinates ≠ [] := by
    obtain ⟨named, items, explored, rfl⟩ := exists_explored (.inl h)
    obtain ⟨c, hc⟩ := List.exists_mem_of_ne_nil _ named
    obtain ⟨e, he, -⟩ := explored.complete.rooted c hc
    exact List.ne_nil_of_mem (List.mem_map_of_mem he)
  obtain ⟨y, outcome, entries⟩ := (saturated_of_outcome h exclusions).outcome named
  refine ⟨y, outcome, ?_, fun e he => ?_⟩
  · rw [Resolution.coordinates, entries, List.map_map]
    exact List.map_id' _
  · rw [entries] at he
    obtain ⟨c, -, rfl⟩ := List.mem_map.mp he
    rfl

namespace Sample

/-- Nothing is excluded here, and `util` comes through `lib`, too. -/
def openRows : List Manifest := [
  ⟨app, [needs lib [], needs core []], []⟩,
  ⟨lib, [needs util [], needs nextCore [], needs nextApp []], []⟩,
  ⟨core, [needs util []], []⟩,
  ⟨util, [], []⟩]

def openCatalog : Catalog := .ofRows openRows

def openResolution : Resolution where
  entries := [⟨app, 0, .jar, none⟩, ⟨lib, 1, .jar, some app⟩, ⟨core, 1, .jar, some app⟩,
    ⟨util, 2, .jar, some lib⟩]
  conflicts := resolution.conflicts

theorem outcome_open :
    (resolve openCatalog .runtimeSet [app]).outcome = .ok openResolution := by
  apply Queue.outcome_of_run (n := 9)
  · decide +kernel
  · decide +kernel

end Sample

/-- `lib` asks for other versions of `core` and `app`, and still gets neither of them. -/
theorem resolve_coordinates_sample :
    (resolve Sample.openCatalog .runtimeSet [Sample.app]).outcome = .ok Sample.openResolution ∧
      ∃ y, (resolve Sample.openCatalog .runtimeSet
          [Sample.app, Sample.lib, Sample.core, Sample.util]).outcome = .ok y ∧
        y.coordinates = [Sample.app, Sample.lib, Sample.core, Sample.util] ∧
        ∀ e ∈ y.entries, e.depth = 0 := by
  have none : ∀ m ∈ Sample.openRows, ∀ d ∈ m.dependencies, d.exclusions = ∅ := by decide +kernel
  exact ⟨Sample.outcome_open, resolve_coordinates Sample.outcome_open
    fun _ _ m hm d hd _ => none m (Catalog.mem_of_fetchRow hm) d hd⟩

end Depot
