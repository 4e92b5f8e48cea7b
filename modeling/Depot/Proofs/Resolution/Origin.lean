import Mathlib.Data.List.Nodup
import Depot.Proofs.Resolution.Queue
import Depot.Proofs.Resolution.Selection

/-!
# Where entries come from

An entry that is no root was declared by its parent, and no selected package that comes before
declares the same identity in a way that its own path allows. What a path excludes can be read off
the entries and the manifests: from the declaration that brought in the entry, and then from its
parent in the same way.
-/

namespace Depot

variable {cat : Catalog} {scopes : ScopeSet}

/-- The first followed declaration of an identity in the manifest of a coordinate. -/
def Catalog.declaration? (cat : Catalog) (scopes : ScopeSet) (c : Coordinate) (i : Identity) :
    Option Dependency :=
  match cat.fetch c with
  | .ok m => m.dependencies.find? fun d => d.scope ∈ scopes ∧ d.coordinate.identity = i
  | .error _ => none

namespace Resolution

/-- The entry whose manifest brought an entry in. -/
def parent? (r : Resolution) (e : Entry) : Option Entry :=
  e.parent.bind fun c => r.entries.find? fun p => p.coordinate = c

/-- What is excluded below an entry that is so many steps away from a root: what its parent
passes on, and what the declaration that brought it in excludes itself. -/
def belowAt (cat : Catalog) (scopes : ScopeSet) (r : Resolution) :
    Nat → Entry → OrderedSet ArtifactKey
  | 0, _ => ∅
  | n + 1, e =>
    match r.parent? e with
    | none => ∅
    | some p =>
      match cat.declaration? scopes p.coordinate e.identity with
      | none => belowAt cat scopes r n p
      | some d => (belowAt cat scopes r n p).union d.exclusions

theorem belowAt_succ {r : Resolution} {n : Nat} {e p : Entry} {d : Dependency}
    (hp : r.parent? e = some p) (hd : cat.declaration? scopes p.coordinate e.identity = some d) :
    r.belowAt cat scopes (n + 1) e = (r.belowAt cat scopes n p).union d.exclusions := by
  simp only [belowAt, hp, hd]

/-- The exclusions in force below an entry. -/
def below (cat : Catalog) (scopes : ScopeSet) (r : Resolution) (e : Entry) :
    OrderedSet ArtifactKey :=
  r.belowAt cat scopes e.depth e

/-- A selected package declares a dependency: it is at place `k` of the manifest of the entry at
place `j`, in a scope that is followed, and not excluded below that entry. -/
structure Declares (cat : Catalog) (scopes : ScopeSet) (r : Resolution) (j k : Nat) (p : Entry)
    (d : Dependency) : Prop where
  entry : r.entries[j]? = some p
  listed : ∃ m, cat.fetch p.coordinate = .ok m ∧ m.dependencies[k]? = some d
  followed : d.scope ∈ scopes
  allowed : d.coordinate.artifactKey ∉ r.below cat scopes p

/-- The earliest declaration of its identity: by the place of the entry, and within one manifest
by the place of the dependency. -/
structure DeclaresFirst (cat : Catalog) (scopes : ScopeSet) (r : Resolution) (j k : Nat)
    (p : Entry) (d : Dependency) : Prop extends Declares cat scopes r j k p d where
  first : ∀ j' k' p' d', r.Declares cat scopes j' k' p' d' →
    d'.coordinate.identity = d.coordinate.identity → j < j' ∨ (j = j' ∧ k ≤ k')

/-- The nearest declaration wins, and among equally near ones the first. -/
structure NearestFirst (cat : Catalog) (scopes : ScopeSet) (roots : List Coordinate)
    (r : Resolution) : Prop where
  distinct : (r.entries.map Entry.identity).Nodup
  ordered : r.entries.Pairwise fun a b => a.depth ≤ b.depth
  roots : (r.entries.filter fun e => e.depth = 0) =
    (firstsBy Coordinate.identity roots).map fun c => ⟨c, 0, .jar, none⟩
  below_root : ∀ e ∈ r.entries, e.depth = 0 → r.below cat scopes e = ∅
  declared : ∀ e ∈ r.entries, e.depth ≠ 0 → ∃ j k p d, r.DeclaresFirst cat scopes j k p d ∧
    e = ⟨d.coordinate, p.depth + 1, d.kind, some p.coordinate⟩ ∧
    r.below cat scopes e = (r.below cat scopes p).union d.exclusions

end Resolution

/-- What is not in the first part of a list is found in the second. -/
theorem exists_append_of_not_mem {α : Type} {as bs before after : List α} {a : α}
    (h : before ++ a :: after = as ++ bs) (ha : a ∉ as) :
    ∃ rest, before = as ++ rest ∧ bs = rest ++ a :: after := by
  rcases List.append_eq_append_iff.mp h with ⟨gap, hg, hr⟩ | ⟨gap, hg, hr⟩
  · cases gap with
    | nil => exact ⟨[], by simpa using hg.symm, hr.symm⟩
    | cons b gap =>
      rw [List.cons_append, List.cons.injEq] at hr
      obtain ⟨rfl, -⟩ := hr
      exact absurd (by rw [hg]; simp) ha
  · exact ⟨gap, hg, hr⟩

theorem flatMap_eq_append_cons {α β : Type} {f : α → List β} {as : List α} {before after : List β}
    {b : β} (h : as.flatMap f = before ++ b :: after) :
    ∃ front a back now later, as = front ++ a :: back ∧ f a = now ++ b :: later ∧
      before = front.flatMap f ++ now := by
  induction as generalizing before with
  | nil => simp at h
  | cons a as ih =>
    rw [List.flatMap_cons] at h
    rcases List.append_eq_append_iff.mp h with ⟨gap, rfl, hr⟩ | ⟨gap, ha, hr⟩
    · obtain ⟨front, c, back, now, later, rfl, hc, rfl⟩ := ih hr
      exact ⟨a :: front, c, back, now, later, rfl, hc, by simp⟩
    · cases gap with
      | nil =>
        obtain ⟨front, c, back, now, later, rfl, hc, hn⟩ := ih (show _ = [] ++ b :: after from hr.symm)
        refine ⟨a :: front, c, back, now, later, rfl, hc, ?_⟩
        rw [List.append_nil] at ha
        rw [List.flatMap_cons, ha, List.append_assoc, ← hn, List.append_nil]
      | cons c gap =>
        rw [List.cons_append, List.cons.injEq] at hr
        obtain ⟨rfl, -⟩ := hr
        exact ⟨[], a, as, before, gap, rfl, ha, rfl⟩

theorem artifactKey_of_identity {c c' : Coordinate} (h : c.identity = c'.identity) :
    c.artifactKey = c'.artifactKey := by
  simp only [Coordinate.identity, Identity.mk.injEq] at h
  simp only [Coordinate.artifactKey, h.1, h.2.1]

/-- Exclusions do not tell versions or classifiers apart. -/
theorem excluded_child_congr (q : Pending) {d d' : Dependency}
    (h : d.coordinate.identity = d'.coordinate.identity) :
    (q.child d).excluded = (q.child d').excluded := by
  have hk := artifactKey_of_identity h
  exact decide_eq_decide.mpr
    (show d.coordinate.artifactKey ∈ q.below ↔ d'.coordinate.artifactKey ∈ q.below by rw [hk])

/-- A package among the offspring of another one, and what is declared before it. -/
theorem exists_of_offspring_eq {p q : Pending} {now later : List Pending}
    (h : offspring cat scopes q = now ++ p :: later) :
    ∃ m ds d ds', cat.fetch q.coordinate = .ok m ∧ m.dependencies = ds ++ d :: ds' ∧
      d.scope ∈ scopes ∧ p = q.child d ∧ ∀ b ∈ ds, b.scope ∈ scopes → q.child b ∈ now := by
  unfold offspring at h
  cases hm : cat.fetch q.coordinate with
  | error e => simp [hm] at h
  | ok m =>
    simp only [hm, Pending.children] at h
    obtain ⟨kept, rest, hk, rfl, hr⟩ := List.map_eq_append_iff.mp h
    obtain ⟨d, rest, rfl, rfl, -⟩ := List.map_eq_cons_iff.mp hr
    obtain ⟨front, back, hf, rfl, hb⟩ := List.filter_eq_append_iff.mp hk
    obtain ⟨gap, ds', rfl, skipped, followed, -⟩ := List.filter_eq_cons_iff.mp hb
    refine ⟨m, front ++ gap, d, ds', rfl, by simp [hf], by simpa using followed, rfl, ?_⟩
    intro b hb hs
    rcases List.mem_append.mp hb with hb | hb
    · exact List.mem_map_of_mem (List.mem_filter.mpr ⟨hb, by simpa using hs⟩)
    · exact absurd hs (by simpa using skipped b hb)

namespace Explored

variable {roots : List Coordinate} {items : List Pending}

/-- A package that is admitted and no root is a child of an admitted package. Nothing of its
identity was declared and allowed before: neither by the packages that were admitted before its
parent, nor earlier in the manifest of its parent. -/
theorem exists_parent (h : Explored cat scopes roots items) {p : Pending}
    (hp : p ∈ admitted items) (deep : p.depth ≠ 0) :
    ∃ front q back m ds d ds', admitted items = front ++ q :: back ∧
      cat.fetch q.coordinate = .ok m ∧ m.dependencies = ds ++ d :: ds' ∧ d.scope ∈ scopes ∧
      p = q.child d ∧
      (∀ a ∈ front, ∀ b ∈ offspring cat scopes a, b.excluded = false → b.identity ≠ p.identity) ∧
      (∀ b ∈ ds, b.scope ∈ scopes → b.coordinate.identity ≠ d.coordinate.identity) := by
  obtain ⟨before, after, hi, unbarred, first⟩ := exists_of_mem_admitted hp
  have hs : before ++ p :: after = (firsts roots).map Pending.root ++
      (admitted items).flatMap (offspring cat scopes) := hi ▸ h.eq_append
  have below : p ∉ (firsts roots).map Pending.root := by
    intro hm
    obtain ⟨c, hc, rfl⟩ := List.mem_map.mp hm
    exact deep rfl
  obtain ⟨rest, rfl, hr⟩ := exists_append_of_not_mem hs below
  obtain ⟨front, q, back, now, later, ha, hq, rfl⟩ := flatMap_eq_append_cons hr
  obtain ⟨m, ds, d, ds', hm, hd, followed, rfl, hn⟩ := exists_of_offspring_eq hq
  refine ⟨front, q, back, m, ds, d, ds', ha, hm, hd, followed, rfl, ?_, ?_⟩
  · intro a ha b hb hx
    have hm : b ∈ front.flatMap (offspring cat scopes) := List.mem_flatMap.mpr ⟨a, ha, hb⟩
    exact first b (List.mem_append_right _ (List.mem_append_left _ hm)) hx
  · intro b hb hs he
    have hx : (q.child b).excluded = false := by
      rw [← unbarred]
      exact excluded_child_congr q he
    exact first (q.child b) (List.mem_append_right _ (List.mem_append_right _ (hn b hb hs))) hx he

theorem eq_of_identity {p q : Pending} (hp : p ∈ admitted items) (hq : q ∈ admitted items)
    (h : p.identity = q.identity) : p = q :=
  List.inj_on_of_nodup_map (nodup_identities items) hp hq h

theorem mem_root {p : Pending} (h : Explored cat scopes roots items) (hp : p ∈ admitted items)
    (shallow : p.depth = 0) : ∃ c ∈ roots, p = Pending.root c := by
  have hm := (admitted_sublist items).subset hp
  rw [h.eq_append] at hm
  rcases List.mem_append.mp hm with hm | hm
  · obtain ⟨c, hc, rfl⟩ := List.mem_map.mp hm
    exact ⟨c, mem_firsts.mp hc, rfl⟩
  · obtain ⟨q, -, hq⟩ := List.mem_flatMap.mp hm
    have := depth_of_mem_offspring hq
    omega

/-- The entry that has an admitted package for its parent finds it again. -/
theorem parent?_child {q : Pending} (hq : q ∈ admitted items) (d : Dependency) :
    (met items).parent? (q.child d).entry = some q.entry := by
  have hs : ((met items).entries.find? fun e => e.coordinate = q.coordinate).isSome := by
    rw [List.find?_isSome, entries_met]
    exact ⟨q.entry, List.mem_map_of_mem hq, by simp [Pending.entry]⟩
  obtain ⟨e, he⟩ := Option.isSome_iff_exists.mp hs
  have hm := List.mem_of_find?_eq_some he
  have hc := List.find?_some he
  rw [entries_met] at hm
  obtain ⟨a, ha, rfl⟩ := List.mem_map.mp hm
  have hi : a.identity = q.identity := by
    have hc : a.coordinate = q.coordinate := of_decide_eq_true hc
    simp only [Pending.identity, hc]
  rw [eq_of_identity ha hq hi] at he
  exact he

/-- What the entries say about exclusions is what the run has carried along. -/
theorem belowAt_entry (h : Explored cat scopes roots items) {n : Nat} {p : Pending}
    (hp : p ∈ admitted items) (depth : p.depth = n) :
    (met items).belowAt cat scopes n p.entry = p.below := by
  induction n generalizing p with
  | zero =>
    obtain ⟨c, -, rfl⟩ := h.mem_root hp depth
    rfl
  | succ n ih =>
    obtain ⟨front, q, back, m, ds, d, ds', ha, hm, hd, hs, rfl, -, before⟩ :=
      h.exists_parent hp (by omega)
    have hq : q ∈ admitted items := by rw [ha]; simp
    have found : cat.declaration? scopes q.coordinate d.coordinate.identity = some d := by
      simp only [Catalog.declaration?, hm, hd]
      rw [List.find?_append, List.find?_eq_none.mpr (by simpa using before)]
      simp [hs]
    have ih := ih hq (by simpa [Pending.child] using depth)
    rw [Resolution.belowAt_succ (parent?_child hq d) found, ih]
    rfl

theorem below_entry (h : Explored cat scopes roots items) {p : Pending}
    (hp : p ∈ admitted items) : (met items).below cat scopes p.entry = p.below :=
  h.belowAt_entry hp rfl

/-- What an entry declares is what the admitted package brings in without excluding it. -/
theorem declares_iff (h : Explored cat scopes roots items) {j k : Nat} {e : Entry}
    {d : Dependency} :
    (met items).Declares cat scopes j k e d ↔ ∃ q m, (admitted items)[j]? = some q ∧
      e = q.entry ∧ cat.fetch q.coordinate = .ok m ∧ m.dependencies[k]? = some d ∧
      d.scope ∈ scopes ∧ (q.child d).excluded = false := by
  constructor
  · rintro ⟨he, ⟨m, hm, hd⟩, hs, hx⟩
    rw [entries_met, List.getElem?_map] at he
    obtain ⟨q, hq, rfl⟩ := Option.map_eq_some_iff.mp he
    rw [h.below_entry (List.mem_of_getElem? hq)] at hx
    exact ⟨q, m, hq, rfl, hm, hd, hs, decide_eq_false hx⟩
  · rintro ⟨q, m, hq, rfl, hm, hd, hs, hx⟩
    refine ⟨?_, ⟨m, hm, hd⟩, hs, ?_⟩
    · rw [entries_met, List.getElem?_map, hq, Option.map_some]
    · rw [h.below_entry (List.mem_of_getElem? hq)]
      exact of_decide_eq_false hx

/-- A selected package that is no root owes its place to the earliest declaration. -/
theorem exists_declaresFirst (h : Explored cat scopes roots items) {p : Pending}
    (hp : p ∈ admitted items) (deep : p.depth ≠ 0) :
    ∃ j k q d, q ∈ admitted items ∧ p = q.child d ∧
      (met items).DeclaresFirst cat scopes j k q.entry d := by
  obtain ⟨front, q, back, m, ds, d, ds', ha, hm, hd, hs, rfl, earlier, before⟩ :=
    h.exists_parent hp deep
  have hx : (q.child d).excluded = false := (exists_of_mem_admitted hp).choose_spec.choose_spec.2.1
  have hq : (admitted items)[front.length]? = some q := by rw [ha]; simp
  refine ⟨front.length, ds.length, q, d, List.mem_of_getElem? hq, rfl,
    h.declares_iff.mpr ⟨q, m, hq, rfl, hm, by simp [hd], hs, hx⟩, ?_⟩
  intro j' k' p' d' h' hi
  obtain ⟨q', m', hq', rfl, hm', hd', hs', hx'⟩ := h.declares_iff.mp h'
  by_cases hj : j' < front.length
  · -- an entry before the parent
    rw [ha, List.getElem?_append_left hj] at hq'
    have hb := mem_offspring.mpr ⟨m', hm', d', List.mem_of_getElem? hd', hs', rfl⟩
    exact absurd hi (earlier q' (List.mem_of_getElem? hq') _ hb hx')
  · by_cases he : front.length = j'
    · -- the parent itself
      subst he
      obtain rfl : q = q' := Option.some.inj (hq.symm.trans hq')
      obtain rfl : m = m' := Except.ok.inj (hm.symm.trans hm')
      refine .inr ⟨rfl, Nat.le_of_not_lt fun hk => ?_⟩
      rw [hd, List.getElem?_append_left hk] at hd'
      exact absurd hi (before d' (List.mem_of_getElem? hd') hs')
    · exact .inl (by omega)

/-- The first root of each identity is admitted before anything else. -/
theorem exists_admitted_eq (h : Explored cat scopes roots items) :
    ∃ later, admitted items = (firstsBy Coordinate.identity roots).map Pending.root ++ later ∧
      ∀ p ∈ later, p.depth ≠ 0 := by
  have allowed : ((firsts roots).map Pending.root).filter (fun p => !p.excluded) =
      (firsts roots).map Pending.root := by
    apply List.filter_eq_self.mpr
    intro p hp
    obtain ⟨c, -, rfl⟩ := List.mem_map.mp hp
    simp [Pending.excluded, Pending.root]
  have front : firstsBy Pending.identity ((firsts roots).map Pending.root) =
      (firstsBy Coordinate.identity roots).map Pending.root := by
    rw [firstsBy_map]
    exact congrArg (List.map Pending.root) (firstsBy_firsts Coordinate.identity roots)
  rw [admitted_eq, h.eq_append, List.filter_append, allowed, firstsBy_append, front]
  refine ⟨_, rfl, fun p hp => ?_⟩
  have hp := (firstsBy_sublist _ _).subset (List.mem_filter.mp hp).1
  obtain ⟨q, -, hq⟩ := List.mem_flatMap.mp (List.mem_filter.mp hp).1
  rw [depth_of_mem_offspring hq]
  omega

/-- So the packages at no distance are these. -/
theorem filter_depth_zero (h : Explored cat scopes roots items) :
    ((admitted items).filter fun p => p.depth = 0) =
      (firstsBy Coordinate.identity roots).map Pending.root := by
  obtain ⟨later, ha, deep⟩ := h.exists_admitted_eq
  have front : ((firstsBy Coordinate.identity roots).map Pending.root).filter
      (fun p => p.depth = 0) = (firstsBy Coordinate.identity roots).map Pending.root := by
    apply List.filter_eq_self.mpr
    intro p hp
    obtain ⟨c, -, rfl⟩ := List.mem_map.mp hp
    simp [Pending.root]
  have back : later.filter (fun p => p.depth = 0) = [] :=
    List.filter_eq_nil_iff.mpr fun p hp => by simpa using deep p hp
  rw [ha, List.filter_append, front, back, List.append_nil]

end Explored

/-- Whatever a resolution left behind, nearest and first declarations have won in it. -/
theorem nearestFirst_of_reached (cat : Catalog) (scopes : ScopeSet) (roots : List Coordinate)
    {r : Resolution} (h : (resolve cat scopes roots).Reached r) :
    r.NearestFirst cat scopes roots := by
  obtain ⟨-, items, explored, rfl⟩ := exists_explored h
  constructor
  · rw [entries_met, List.map_map]
    exact Explored.nodup_identities items
  · rw [entries_met]
    exact (explored.pairwise_depth.sublist (Explored.admitted_sublist items)).map _ fun _ _ h => h
  · rw [entries_met, List.filter_map]
    have hz := congrArg (List.map Pending.entry) explored.filter_depth_zero
    rw [List.map_map] at hz
    exact hz
  · intro e he shallow
    rw [entries_met] at he
    obtain ⟨p, hp, rfl⟩ := List.mem_map.mp he
    obtain ⟨c, -, rfl⟩ := explored.mem_root hp shallow
    rw [explored.below_entry hp]
    rfl
  · intro e he deep
    rw [entries_met] at he
    obtain ⟨p, hp, rfl⟩ := List.mem_map.mp he
    obtain ⟨j, k, q, d, hq, rfl, first⟩ := explored.exists_declaresFirst hp deep
    refine ⟨j, k, q.entry, d, first, rfl, ?_⟩
    rw [explored.below_entry hp, explored.below_entry hq]
    rfl

theorem nearestFirst_of_reached_sample :
    (resolve Sample.catalog .runtimeSet [Sample.app]).Reached Sample.resolution ∧
      Sample.resolution.NearestFirst Sample.catalog .runtimeSet [Sample.app] :=
  ⟨Sample.reached, nearestFirst_of_reached _ _ _ Sample.reached⟩

end Depot
