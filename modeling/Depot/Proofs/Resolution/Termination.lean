import Mathlib.Data.Set.Card
import Depot.Proofs.Resolution.Queue
import Depot.Proofs.Resolution.Selection
import Depot.Proofs.Store.Catalogs

/-!
# How long a resolution takes

No level is followed by another unless it admits a package, no identity is admitted twice, and
nothing is met that no root names and no manifest declares. So there is at most one level more than
there are such identities, whatever the manifests declare, and of each identity at most one manifest
is fetched.
-/

namespace Depot

variable {cat cat' : Catalog} {scopes : ScopeSet} {roots : List Coordinate} {r s : Resolution}
  {failures : List BranchFailure} {level : List Pending}
  {reach : ∀ p ∈ level, cat.Reaches roots p.identity}

/-- The level loop, cut off after so many levels. Nothing comes of it if there are more of them. -/
def levelsWithin (cat : Catalog) (scopes : ScopeSet) :
    Nat → Resolution → List BranchFailure → List Pending → Option Run
  | _, r, failures, [] => some ⟨r.outcome failures, [], 0⟩
  | 0, _, _, _ :: _ => none
  | n + 1, r, failures, p :: ps =>
    let met := r.meetAll (p :: ps)
    let fetched := met.2.map Pending.coordinate
    match expand cat scopes met.2 with
    | .error (c, reason) => some ⟨.error (.storeUnavailable c reason), fetched, 1⟩
    | .ok x =>
      (levelsWithin cat scopes n met.1 (failures ++ x.failures) x.next).map (Run.after fetched)

/-- The bound on the levels is all that the two loops differ in. -/
theorem levelsWithin_eq (reach : ∀ p ∈ level, cat.Reaches roots p.identity) (n : Nat) :
    levelsWithin cat scopes n r failures level =
      if (runLevels cat scopes roots r failures level reach).levels ≤ n then
        some (runLevels cat scopes roots r failures level reach)
      else none := by
  fun_induction runLevels cat scopes roots r failures level reach generalizing n with
  | case1 r failures => simp [levelsWithin]
  | case2 r failures p ps reach met fetched c reason hx =>
    cases n <;> simp [levelsWithin, met, fetched, hx]
  | case3 r failures p ps reach met fetched x hx _ ih =>
    cases n with
    | zero => simp [levelsWithin, Run.after]
    | succ n =>
      simp only [levelsWithin, met, fetched, hx, ih, Run.after, Nat.add_le_add_iff_right]
      split <;> rfl

/-! ### One level -/

theorem nodup_admitted (r : Resolution) (ps : List Pending) :
    (((r.meetAll ps).2.map Pending.coordinate).map Coordinate.identity).Nodup := by
  rw [List.map_map, Resolution.admitted_meetAll]
  exact (nodup_keys_firstsBy Pending.identity _).sublist (List.filter_sublist.map _)

/-- What has no entry after a level had none before, and was not admitted on it. -/
theorem get?_of_meetAll {ps : List Pending} {i : Identity} (h : (r.meetAll ps).1.get? i = none) :
    r.get? i = none ∧ ∀ p ∈ (r.meetAll ps).2, p.identity ≠ i := by
  rw [Resolution.get?_eq_none_iff, Resolution.entries_meetAll] at h
  constructor
  · exact Resolution.get?_eq_none_iff.mpr fun e he => h e (List.mem_append_left _ he)
  · exact fun p hp => h p.entry (List.mem_append_right _ (List.mem_map_of_mem hp))

theorem coordinates_meetAll (r : Resolution) (ps : List Pending) :
    (r.meetAll ps).1.coordinates = r.coordinates ++ (r.meetAll ps).2.map Pending.coordinate := by
  simp only [Resolution.coordinates, Resolution.entries_meetAll, List.map_append, List.map_map]
  rfl

/-- A level that is followed by another has admitted a package. -/
theorem ne_nil_of_next {ps : List Pending} {x : Expansion} (h : expand cat scopes ps = .ok x)
    (more : x.next ≠ []) : ps ≠ [] := by
  rintro rfl
  cases h
  exact more rfl

theorem expand_congr {ps : List Pending}
    (same : ∀ p ∈ ps, cat.fetch p.coordinate = cat'.fetch p.coordinate) :
    expand cat scopes ps = expand cat' scopes ps := by
  induction ps with
  | nil => rfl
  | cons p ps ih =>
    simp only [expand, same p List.mem_cons_self,
      ih fun q hq => same q (List.mem_cons_of_mem p hq)]

/-! ### All levels -/

/-- Each level but the last fetches a manifest. -/
theorem levels_runLevels :
    (runLevels cat scopes roots r failures level reach).levels ≤
      (runLevels cat scopes roots r failures level reach).fetched.length +
        if level = [] then 0 else 1 := by
  fun_induction runLevels cat scopes roots r failures level reach with
  | case1 r failures => simp
  | case2 r failures p ps reach met fetched c reason hx => simp
  | case3 r failures p ps reach met fetched x hx _ ih =>
    simp only [Run.after, List.length_append, if_neg (List.cons_ne_nil p ps)]
    -- only the last level may admit nothing
    by_cases more : x.next = []
    · rw [if_pos more] at ih
      omega
    · have admitted : fetched ≠ [] := by simpa [fetched] using ne_nil_of_next hx more
      have := List.length_pos_of_ne_nil admitted
      rw [if_neg more] at ih
      omega

/-- What is fetched has no entry yet and can be reached, and nothing is fetched twice. -/
theorem fetched_runLevels :
    ((runLevels cat scopes roots r failures level reach).fetched.map Coordinate.identity).Nodup ∧
    ∀ c ∈ (runLevels cat scopes roots r failures level reach).fetched,
      r.get? c.identity = none ∧ cat.Reaches roots c.identity := by
  have now : ∀ {r : Resolution} {ps : List Pending} {c : Coordinate},
      (∀ p ∈ ps, cat.Reaches roots p.identity) → c ∈ (r.meetAll ps).2.map Pending.coordinate →
      r.get? c.identity = none ∧ cat.Reaches roots c.identity := by
    intro r ps c reach hc
    obtain ⟨q, hq, rfl⟩ := List.mem_map.mp hc
    exact ⟨Resolution.get?_of_mem_meetAll hq, reach q (Resolution.mem_of_mem_meetAll hq)⟩
  fun_induction runLevels cat scopes roots r failures level reach with
  | case1 r failures => simp
  | case2 r failures p ps reach met fetched c reason hx =>
    exact ⟨nodup_admitted r (p :: ps), fun c hc => now reach hc⟩
  | case3 r failures p ps reach met fetched x hx _ ih =>
    -- what has an entry after this level is not fetched later
    obtain ⟨nodup, fresh⟩ := ih
    simp only [Run.after, List.map_append, List.mem_append]
    constructor
    · refine List.nodup_append.mpr ⟨nodup_admitted r (p :: ps), nodup, ?_⟩
      intro i hi j hj
      obtain ⟨c, hc, rfl⟩ := List.mem_map.mp hi
      obtain ⟨q, hq, rfl⟩ := List.mem_map.mp hc
      obtain ⟨d, hd, rfl⟩ := List.mem_map.mp hj
      exact (get?_of_meetAll (fresh d hd).1).2 q hq
    · rintro c (hc | hc)
      · exact now reach hc
      · exact ⟨(get?_of_meetAll (fresh c hc).1).1, (fresh c hc).2⟩

/-- For every entry that a run adds, one manifest is fetched. -/
theorem coordinates_of_reached (h : (runLevels cat scopes roots r failures level reach).Reached s) :
    s.coordinates = r.coordinates ++ (runLevels cat scopes roots r failures level reach).fetched := by
  fun_induction runLevels cat scopes roots r failures level reach with
  | case1 r failures =>
    unfold Run.Reached Resolution.outcome at h
    split at h <;> simp_all
  | case2 r failures p ps reach met fetched c reason hx => simp [Run.Reached] at h
  | case3 r failures p ps reach met fetched x hx _ ih =>
    rw [ih h, coordinates_meetAll, List.append_assoc]
    rfl

/-- Nothing but what is fetched decides how a run goes on. -/
theorem levelsWithin_congr {n : Nat} {run : Run}
    (h : levelsWithin cat scopes n r failures level = some run)
    (same : ∀ c ∈ run.fetched, cat.fetch c = cat'.fetch c) :
    levelsWithin cat' scopes n r failures level = some run := by
  induction n generalizing r failures level run with
  | zero =>
    cases level with
    | nil => simpa [levelsWithin] using h
    | cons p ps => simp [levelsWithin] at h
  | succ n ih =>
    cases level with
    | nil => simpa [levelsWithin] using h
    | cons p ps =>
      have now (all : ∀ c ∈ (r.meetAll (p :: ps)).2.map Pending.coordinate, c ∈ run.fetched) :
          expand cat scopes (r.meetAll (p :: ps)).2 = expand cat' scopes (r.meetAll (p :: ps)).2 :=
        expand_congr fun q hq => same _ (all _ (List.mem_map_of_mem hq))
      simp only [levelsWithin] at h ⊢
      cases hx : expand cat scopes (r.meetAll (p :: ps)).2 with
      | error e =>
        simp only [hx, Option.some.injEq] at h
        subst h
        rw [← now fun c hc => hc, hx]
      | ok x =>
        simp only [hx, Option.map_eq_some_iff] at h
        obtain ⟨later, hl, rfl⟩ := h
        rw [← now fun c hc => List.mem_append_left _ hc, hx]
        simp only [ih hl fun c hc => same c (List.mem_append_right _ hc), Option.map_some]

/-! ### Whole runs -/

namespace Catalog

theorem finite_reaches (cat : Catalog) (roots : List Coordinate) :
    {i | cat.Reaches roots i}.Finite := by
  refine (List.finite_toSet (roots.map Coordinate.identity ++ cat.declared)).subset ?_
  rintro i (h | h)
  · exact List.mem_append_left _ h
  · exact List.mem_append_right _ (mem_declared h)

theorem length_le_ncard {cs : List Coordinate} (nodup : (cs.map Coordinate.identity).Nodup)
    (reached : ∀ c ∈ cs, cat.Reaches roots c.identity) :
    cs.length ≤ {i | cat.Reaches roots i}.ncard := by
  calc cs.length
      = (cs.map Coordinate.identity).toFinset.card := by
        rw [List.toFinset_card_of_nodup nodup, List.length_map]
    _ = ((cs.map Coordinate.identity).toFinset : Set Identity).ncard :=
        (Set.ncard_coe_finset _).symm
    _ ≤ {i | cat.Reaches roots i}.ncard := by
        refine Set.ncard_le_ncard (fun i hi => ?_) (cat.finite_reaches roots)
        obtain ⟨c, hc, rfl⟩ := List.mem_map.mp (List.mem_toFinset.mp hi)
        exact reached c hc

end Catalog

theorem exists_runLevels (cat : Catalog) (scopes : ScopeSet) (named : roots ≠ []) :
    ∃ reach, resolve cat scopes roots =
      runLevels cat scopes roots .empty [] ((firsts roots).map Pending.root) reach := by
  unfold resolve
  rw [if_neg (by simpa using named)]
  exact ⟨_, rfl⟩

theorem levelsWithin_roots (named : roots ≠ []) (n : Nat) :
    levelsWithin cat scopes n .empty [] ((firsts roots).map Pending.root) =
      if (resolve cat scopes roots).levels ≤ n then some (resolve cat scopes roots) else none := by
  obtain ⟨reach, run⟩ := exists_runLevels cat scopes named
  rw [run, levelsWithin_eq reach]

theorem nodup_fetched (named : roots ≠ []) :
    ((resolve cat scopes roots).fetched.map Coordinate.identity).Nodup := by
  obtain ⟨reach, run⟩ := exists_runLevels cat scopes named
  rw [run]
  exact fetched_runLevels.1

theorem reaches_fetched (named : roots ≠ []) :
    ∀ c ∈ (resolve cat scopes roots).fetched, cat.Reaches roots c.identity := by
  obtain ⟨reach, run⟩ := exists_runLevels cat scopes named
  rw [run]
  exact fun c hc => (fetched_runLevels.2 c hc).2

theorem fetched_of_reached (named : roots ≠ []) (h : (resolve cat scopes roots).Reached r) :
    (resolve cat scopes roots).fetched = r.coordinates := by
  obtain ⟨reach, run⟩ := exists_runLevels cat scopes named
  rw [run] at h ⊢
  exact (coordinates_of_reached h).symm

theorem levels_le_ncard (named : roots ≠ []) :
    (resolve cat scopes roots).levels ≤ {i | cat.Reaches roots i}.ncard + 1 := by
  obtain ⟨reach, run⟩ := exists_runLevels cat scopes named
  calc (resolve cat scopes roots).levels
      ≤ (resolve cat scopes roots).fetched.length + 1 := by
        rw [run]
        exact levels_runLevels.trans (by split <;> omega)
    _ ≤ {i | cat.Reaches roots i}.ncard + 1 :=
        Nat.add_le_add_right
          (Catalog.length_le_ncard (nodup_fetched named) (reaches_fetched named)) 1

theorem resolve_eq_of_fetched (named : roots ≠ [])
    (same : ∀ c ∈ (resolve cat scopes roots).fetched, cat.fetch c = cat'.fetch c) :
    resolve cat' scopes roots = resolve cat scopes roots := by
  have ended := levelsWithin_congr ((levelsWithin_roots named _).trans (if_pos le_rfl)) same
  rw [levelsWithin_roots named] at ended
  split at ended
  · exact Option.some.inj ended
  · cases ended

section

variable {σ : Type} [ArtifactStore σ]

/-- The identities that roots name or that the manifests in a store declare. -/
def ArtifactStore.identities (s : σ) (roots : List Coordinate) : Set Identity :=
  {i | (catalog s).Reaches roots i}

/-- How a run over roots in a store comes to its end: the loop ends by itself, before it could be cut
off, and what the run fetches are the manifests of its entries, each of them once, and all that it
depends on. -/
structure Run.Bounded (s : σ) (scopes : ScopeSet) (roots : List Coordinate) (run : Run) : Prop where
  finite : (ArtifactStore.identities s roots).Finite
  ends : ∀ n, (ArtifactStore.identities s roots).ncard + 1 ≤ n →
    levelsWithin (ArtifactStore.catalog s) scopes n .empty [] ((firsts roots).map Pending.root) =
      some run
  levels : run.levels ≤ (ArtifactStore.identities s roots).ncard + 1
  once : (run.fetched.map Coordinate.identity).Nodup
  known : ∀ c ∈ run.fetched, c.identity ∈ ArtifactStore.identities s roots
  entries : ∀ r, run.Reached r → run.fetched = r.coordinates
  manifests : ∀ (τ : Type) [ArtifactStore τ] (t : τ),
    (∀ c ∈ run.fetched, (ArtifactStore.catalog s).fetch c.manifestOf =
      (ArtifactStore.catalog t).fetch c.manifestOf) →
    resolve (ArtifactStore.catalog t) scopes roots = run

/-- Whatever a store holds, cycles among its manifests included, a resolution ends after one level
more than there are identities, at most. Of each identity it fetches one manifest or none, and
exactly the manifests of its entries. -/
theorem resolve_bounded (s : σ) (scopes : ScopeSet) (named : roots ≠ []) :
    (resolve (ArtifactStore.catalog s) scopes roots).Bounded s scopes roots where
  finite := Catalog.finite_reaches _ _
  ends n enough := by
    rw [levelsWithin_roots named, if_pos ((levels_le_ncard named).trans enough)]
  levels := levels_le_ncard named
  once := nodup_fetched named
  known := reaches_fetched named
  entries _ reached := fetched_of_reached named reached
  manifests _ _ _ same := resolve_eq_of_fetched named same

end

namespace Sample

/-- `app` needs the next version of itself. -/
def ring : MemoryStore := (MemoryStore.empty.putManifest app (document app (some nextApp))).2

def ringed : Resolution := ⟨[⟨app, 0, .jar, none⟩], [⟨app, 0, [⟨"2", 1, some app⟩]⟩]⟩

theorem outcome_ring :
    (resolve (ArtifactStore.catalog ring) .runtimeSet [app]).outcome = .ok ringed := by
  apply Queue.outcome_of_run (n := 3)
  · decide +kernel
  · decide +kernel

end Sample

open Sample in
theorem resolve_bounded_sample :
    [app] ≠ [] ∧ (resolve (ArtifactStore.catalog ring) .runtimeSet [app]).fetched = [app] ∧
    (resolve (ArtifactStore.catalog ring) .runtimeSet [app]).levels ≤
      (ArtifactStore.identities ring [app]).ncard + 1 := by
  have named : [app] ≠ [] := by simp
  have bounded := resolve_bounded ring .runtimeSet named
  exact ⟨named, bounded.entries ringed (.inl outcome_ring), bounded.levels⟩

end Depot
