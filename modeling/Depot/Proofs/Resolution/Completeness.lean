import Depot.Proofs.Resolution.Origin

/-!
# Nothing is lost

A dependency that a selected package declares can be missing from the entries for one reason
only: its path excludes it. All else that is declared is there, in the version that came first,
and no further away than the declaration puts it.
-/

namespace Depot

variable {cat : Catalog} {scopes : ScopeSet}

namespace Resolution

/-- Every followed dependency of an entry is excluded below that entry or has its identity
selected, at most one step further away, and every root has its identity selected as a root. -/
structure Complete (cat : Catalog) (scopes : ScopeSet) (roots : List Coordinate)
    (r : Resolution) : Prop where
  accounted : ∀ p ∈ r.entries, ∀ m, cat.fetch p.coordinate = .ok m →
    ∀ d ∈ m.dependencies, d.scope ∈ scopes →
      d.coordinate.artifactKey ∈ r.below cat scopes p ∨
        ∃ e ∈ r.entries, e.identity = d.coordinate.identity ∧ e.depth ≤ p.depth + 1
  rooted : ∀ c ∈ roots, ∃ e ∈ r.entries, e.identity = c.identity ∧ e.depth = 0

theorem outcome_eq_ok_iff {r s : Resolution} {failures : List BranchFailure} :
    r.outcome failures = .ok s ↔ failures = [] ∧ r = s := by
  unfold outcome
  cases failures <;> simp

end Resolution

namespace Catalog

theorem failure?_eq_none_iff {c : Coordinate} :
    cat.failure? c = none ↔ ∃ m, cat.fetch c = .ok m := by
  unfold failure?
  cases cat.fetch c <;> simp

end Catalog

namespace Explored

variable {roots : List Coordinate} {items : List Pending}

/-- Whatever is met without being excluded is there, in some version, and no further away. -/
theorem exists_entry (h : Explored cat scopes roots items) {p : Pending} (hp : p ∈ items)
    (hx : p.excluded = false) :
    ∃ e ∈ (met items).entries, e.identity = p.identity ∧ e.depth ≤ p.depth := by
  obtain ⟨q, hq, hi, hd⟩ := h.exists_admitted hp hx
  refine ⟨q.entry, ?_, hi, hd⟩
  rw [entries_met]
  exact List.mem_map_of_mem hq

/-- Whatever an admitted package declares in a followed scope is met. -/
theorem child_mem (h : Explored cat scopes roots items) {p : Pending} (hp : p ∈ admitted items)
    {m : Manifest} (hm : cat.fetch p.coordinate = .ok m) {d : Dependency}
    (hd : d ∈ m.dependencies) (hs : d.scope ∈ scopes) : p.child d ∈ items := by
  rw [h.eq_append]
  refine List.mem_append_right _ (List.mem_flatMap.mpr ⟨p, hp, ?_⟩)
  exact mem_offspring.mpr ⟨m, hm, d, hd, hs, rfl⟩

theorem root_mem (h : Explored cat scopes roots items) {c : Coordinate} (hc : c ∈ roots) :
    Pending.root c ∈ items := by
  rw [h.eq_append]
  exact List.mem_append_left _ (List.mem_map_of_mem (mem_firsts.mpr hc))

theorem complete (h : Explored cat scopes roots items) :
    (met items).Complete cat scopes roots := by
  constructor
  · intro e he m hm d hd hs
    rw [entries_met] at he
    obtain ⟨p, hp, rfl⟩ := List.mem_map.mp he
    rw [h.below_entry hp]
    by_cases hx : d.coordinate.artifactKey ∈ p.below
    · exact .inl hx
    · exact .inr (h.exists_entry (h.child_mem hp hm hd hs) (decide_eq_false hx))
  · intro c hc
    have hx : (Pending.root c).excluded = false := decide_eq_false OrderedSet.not_mem_empty
    obtain ⟨e, he, hi, hd⟩ := h.exists_entry (h.root_mem hc) hx
    exact ⟨e, he, hi, Nat.le_zero.mp hd⟩

end Explored

/-- No resolution is cut short without saying so: what it left behind is complete, and if it
succeeded, the manifest of every entry was read. -/
theorem complete_of_reached (cat : Catalog) (scopes : ScopeSet) (roots : List Coordinate)
    {r : Resolution} (h : (resolve cat scopes roots).Reached r) :
    r.Complete cat scopes roots ∧ ((resolve cat scopes roots).outcome = .ok r →
      ∀ e ∈ r.entries, ∃ m, cat.fetch e.coordinate = .ok m) := by
  obtain ⟨named, items, explored, rfl⟩ := exists_explored h
  refine ⟨explored.complete, fun hok e he => ?_⟩
  rw [explored.outcome_resolve named, Resolution.outcome_eq_ok_iff] at hok
  rw [entries_met] at he
  obtain ⟨p, hp, rfl⟩ := List.mem_map.mp he
  exact Catalog.failure?_eq_none_iff.mp (List.filterMap_eq_nil_iff.mp hok.1 p hp)

theorem complete_of_reached_sample :
    (resolve Sample.catalog .runtimeSet [Sample.app]).Reached Sample.resolution ∧
      Sample.resolution.Complete Sample.catalog .runtimeSet [Sample.app] ∧
      ∀ e ∈ Sample.resolution.entries, ∃ m, Sample.catalog.fetch e.coordinate = .ok m := by
  have h := complete_of_reached Sample.catalog .runtimeSet [Sample.app] Sample.reached
  exact ⟨Sample.reached, h.1, h.2 Sample.outcome⟩

end Depot
