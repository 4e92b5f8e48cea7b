import Depot.Proofs.Resolution.Origin

/-!
# The way down to an entry

Every entry is reached from a root along declarations, one for each step of its depth. A
declaration excludes what comes below it: no entry further down that way is of a group and
artifact that an earlier declaration excludes. The entry that a declaration itself brings in is
not concerned, and neither is any other way.
-/

namespace Depot

variable {cat : Catalog} {scopes : ScopeSet}

/-- One step down: the place of the entry that is reached, and the dependency that declares it. -/
structure Link where
  place : Nat
  entry : Entry
  dependency : Dependency

namespace Resolution

/-- `Lineage cat scopes roots r k e links`: the parents of the entry at place `k` lead up to a
root, and these are the links on the way back, the last one first. -/
inductive Lineage (cat : Catalog) (scopes : ScopeSet) (roots : List Coordinate) (r : Resolution) :
    Nat → Entry → List Link → Prop where
  | root {k : Nat} {e : Entry} (entry : r.entries[k]? = some e) (top : e.depth = 0)
      (orphan : e.parent = none) (named : e.coordinate ∈ roots) :
      Lineage cat scopes roots r k e []
  | link {j k : Nat} {p e : Entry} {d : Dependency} {m : Manifest} {links : List Link}
      (above : Lineage cat scopes roots r j p links) (entry : r.entries[k]? = some e)
      (earlier : j < k) (parent : r.parent? e = some p) (fetched : cat.fetch p.coordinate = .ok m)
      (declared : d ∈ m.dependencies) (followed : d.scope ∈ scopes)
      (coordinate : d.coordinate = e.coordinate) (kind : d.kind = e.kind) :
      Lineage cat scopes roots r k e (⟨k, e, d⟩ :: links)

/-- What the declaration of a link excludes is not found further down. -/
def Unbarred (links : List Link) : Prop :=
  links.Pairwise fun lower upper =>
    lower.entry.coordinate.artifactKey ∉ upper.dependency.exclusions

end Resolution

namespace Explored

variable {roots : List Coordinate} {items : List Pending}

/-- Places of entries are places of admitted packages. -/
theorem getElem?_entries {k : Nat} {e : Entry} (he : (met items).entries[k]? = some e) :
    ∃ p, (admitted items)[k]? = some p ∧ e = p.entry := by
  rw [entries_met, List.getElem?_map] at he
  obtain ⟨p, hp, rfl⟩ := Option.map_eq_some_iff.mp he
  exact ⟨p, hp, rfl⟩

/-- A package that is less deep has been admitted before. -/
theorem lt_of_depth_lt (h : Explored cat scopes roots items) {j k : Nat} {p q : Pending}
    (hq : (admitted items)[j]? = some q) (hp : (admitted items)[k]? = some p)
    (nearer : q.depth < p.depth) : j < k := by
  have ordered := h.pairwise_depth.sublist (admitted_sublist items)
  obtain ⟨hj, rfl⟩ := List.getElem?_eq_some_iff.mp hq
  obtain ⟨hk, rfl⟩ := List.getElem?_eq_some_iff.mp hp
  by_contra behind
  rcases Nat.lt_or_eq_of_le (Nat.le_of_not_lt behind) with lt | rfl
  · have := List.pairwise_iff_getElem.mp ordered k j hk hj lt
    omega
  · omega

/-- An admitted package has a lineage as long as it is deep, and what the declarations in it
exclude is excluded below the package. -/
theorem exists_lineage (h : Explored cat scopes roots items) {n k : Nat} {p : Pending}
    (hp : (admitted items)[k]? = some p) (depth : p.depth = n) :
    ∃ links, (met items).Lineage cat scopes roots k p.entry links ∧ links.length = n ∧
      Resolution.Unbarred links ∧
      ∀ l ∈ links, ∀ key ∈ l.dependency.exclusions, key ∈ p.below := by
  have entry : ∀ {i : Nat} {q : Pending}, (admitted items)[i]? = some q →
      (met items).entries[i]? = some q.entry := by
    intro i q hq
    rw [entries_met, List.getElem?_map, hq, Option.map_some]
  induction n generalizing k p with
  | zero =>
    obtain ⟨c, hc, rfl⟩ := h.mem_root (List.mem_of_getElem? hp) depth
    exact ⟨[], .root (entry hp) rfl rfl hc, rfl, .nil, by simp⟩
  | succ n ih =>
    have hm := List.mem_of_getElem? hp
    obtain ⟨front, q, back, m, ds, d, ds', ha, fetched, hd, followed, rfl, -, -⟩ :=
      h.exists_parent hm (by omega)
    have hq : (admitted items)[front.length]? = some q := by rw [ha]; simp
    have nearer : q.depth = n := by simpa [Pending.child] using depth
    obtain ⟨links, above, length, unbarred, carried⟩ := ih hq nearer
    have earlier := h.lt_of_depth_lt hq hp (by omega)
    have parent := parent?_child (List.mem_of_getElem? hq) d
    have allowed : d.coordinate.artifactKey ∉ q.below :=
      of_decide_eq_false (exists_of_mem_admitted hm).choose_spec.choose_spec.2.1
    refine ⟨⟨k, (q.child d).entry, d⟩ :: links,
      .link above (entry hp) earlier parent fetched (by rw [hd]; simp) followed rfl rfl,
      by simp [length], ?_, ?_⟩
    · -- the path to the parent does not exclude the new entry, so no declaration on it does
      exact List.pairwise_cons.mpr ⟨fun l hl hx => allowed (carried l hl _ hx), unbarred⟩
    · intro l hl key hk
      rw [Pending.below, OrderedSet.mem_union]
      rcases List.mem_cons.mp hl with rfl | hl
      · exact .inr hk
      · exact .inl (carried l hl key hk)

end Explored

/-- Whatever a resolution left behind, the parents of each entry lead up to a root in as many
steps as the entry is deep, and no declaration on the way excludes an entry below the one that it
brings in. -/
theorem lineage_of_reached (cat : Catalog) (scopes : ScopeSet) (roots : List Coordinate)
    {r : Resolution} (h : (resolve cat scopes roots).Reached r) {k : Nat} {e : Entry}
    (he : r.entries[k]? = some e) :
    ∃ links, r.Lineage cat scopes roots k e links ∧ links.length = e.depth ∧
      Resolution.Unbarred links := by
  obtain ⟨-, items, explored, rfl⟩ := exists_explored h
  obtain ⟨p, hp, rfl⟩ := Explored.getElem?_entries he
  obtain ⟨links, lineage, length, unbarred, -⟩ := explored.exists_lineage hp rfl
  exact ⟨links, lineage, length, unbarred⟩

/-- `util` is two steps away from `app`, not by way of `lib`. -/
theorem lineage_of_reached_sample :
    (resolve Sample.catalog .runtimeSet [Sample.app]).Reached Sample.resolution ∧
      Sample.resolution.entries[3]? = some ⟨Sample.util, 2, .jar, some Sample.core⟩ ∧
      ∃ links, Sample.resolution.Lineage Sample.catalog .runtimeSet [Sample.app] 3
          ⟨Sample.util, 2, .jar, some Sample.core⟩ links ∧
        links.length = 2 ∧ Resolution.Unbarred links :=
  ⟨Sample.reached, rfl, lineage_of_reached _ _ _ Sample.reached rfl⟩

end Depot
