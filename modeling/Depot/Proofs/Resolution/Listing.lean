import Depot.Proofs.Resolution.Failures
import Depot.Repository

/-!
# Listings and runs

The dependencies that a repository lists for a package are those that a run over this package alone
finds one step below it, each identity once and the package itself never. If they cannot be listed,
the run does not get past its root, and both give the same error: whatever names it gets on either
way, the error of the store or of the manifest is still what it was.
-/

namespace Depot

/-! ### Errors under other names -/

/-- The error that made a branch fail. -/
def BranchReason.origin : BranchReason → FetchError
  | .unreachable e => .store e
  | .invalidCoordinate r => .store (.invalidCoordinate r)
  | .identityMismatch c d => .manifest (.identityMismatch c d)
  | .malformed e => .manifest e

/-- The error of the store or of a manifest that a repository answers. -/
def PackageError.origin? : PackageError → Option FetchError
  | .store e => some (.store e)
  | .manifest e => some (.manifest e)
  | .resolve _ | .load _ => none

@[simp] theorem FetchError.origin_reason (e : FetchError) : e.reason.origin = e := by
  cases e with
  | store e => cases e <;> rfl
  | manifest e => cases e <;> rfl

theorem PackageError.origin?_ofReason (b : BranchReason) : (ofReason b).origin? = some b.origin := by
  cases b <;> rfl

theorem PackageError.origin?_ofFetch (e : FetchError) : (ofFetch e).origin? = some e := by
  rw [ofFetch, origin?_ofReason, e.origin_reason]

/-! ### Roots that cannot be expanded -/

variable {cat : Catalog} {scopes : ScopeSet} {c : Coordinate}

/-- How a run fails if all it has is a root whose manifest cannot be had: the store is out, or the
root is the only failure and the only entry. -/
inductive FailsAt (c : Coordinate) (e : FetchError) : ResolveError → Prop where
  | outage {reason : String} (out : e = .store (.unavailable reason)) :
      FailsAt c e (.storeUnavailable c reason)
  | branch {f : BranchFailure} (answers : e.outage? = none) (here : f.coordinate = c)
      (why : f.reason.origin = e) : FailsAt c e (.unresolved [f] ⟨[⟨c, 0, .jar, none⟩], []⟩)

/-- An outage on a level is the end of the run. -/
theorem runLevels_error {roots : List Coordinate} {r : Resolution} {failures : List BranchFailure}
    {p : Pending} {ps : List Pending} {stop : Coordinate} {reason : String}
    {reach : ∀ q ∈ p :: ps, cat.Reaches roots q.identity}
    (hx : expand cat scopes (r.meetAll (p :: ps)).2 = .error (stop, reason)) :
    (runLevels cat scopes roots r failures (p :: ps) reach).outcome =
      .error (.storeUnavailable stop reason) := by
  rw [runLevels]
  split
  · rename_i h
    rw [hx] at h
    cases h
    rfl
  · rename_i y h
    rw [hx] at h
    cases h

/-- Nothing stands in the way of a root. -/
theorem meetAll_root (c : Coordinate) :
    Resolution.empty.meetAll [.root c] = (⟨[⟨c, 0, .jar, none⟩], []⟩, [.root c]) := rfl

theorem explored_of_error {e : FetchError} (failed : cat.fetch c = .error e)
    (answers : e.outage? = none) : Explored cat scopes [c] [.root c] where
  trace := by
    have none : [Pending.root c].flatMap (offspring cat scopes) = [] := by
      rw [List.flatMap_cons, offspring_of_error failed]
      rfl
    have later : Trace cat scopes (Resolution.empty.meetAll [.root c]).1
        ((Resolution.empty.meetAll [.root c]).2.flatMap (offspring cat scopes)) [] := by
      rw [meetAll_root, none]
      exact .nil _
    exact .level later
  answers p hp e' he := by
    obtain rfl := List.mem_singleton.mp hp
    cases failed.symm.trans he
    exact answers

theorem resolve_of_error {e : FetchError} (failed : cat.fetch c = .error e) (scopes : ScopeSet) :
    ∃ error, (resolve cat scopes [c]).outcome = .error error ∧ FailsAt c e error := by
  cases out : e.outage? with
  | none =>
    have explored : Explored cat scopes [c] [.root c] := explored_of_error failed out
    have failure : cat.failure? c = some ⟨c, e⟩ :=
      Catalog.failure?_eq_some_iff.mpr ⟨rfl, failed⟩
    refine ⟨_, ?_, .branch (f := ⟨c, e⟩) out rfl e.origin_reason⟩
    rw [explored.outcome_resolve (by simp), admitted, met, meetAll_root, List.filterMap_cons]
    simp only [Pending.root, failure]
    rfl
  | some reason =>
    have expanded : expand cat scopes [.root c] = .error (c, reason) := by
      simp only [expand, Pending.root, failed, out]
    refine ⟨_, ?_, .outage (FetchError.outage?_eq_some_iff.mp out)⟩
    exact runLevels_error expanded

/-! ### One step below a root -/

/-- The first dependency of each identity, but none of the identity of the package itself. -/
def directDependencies (c : Coordinate) (ds : List Dependency) : List Dependency :=
  (firstsBy (fun d => d.coordinate.identity) ds).filter
    fun d => d.coordinate.identity ≠ c.identity

/-- `lib` and `core` once each, and `app` not below itself. -/
example : directDependencies Sample.app [Sample.needs Sample.lib [], Sample.needs Sample.nextApp [],
    Sample.needs Sample.core [], Sample.needs Sample.nextCore [], Sample.needs Sample.lib []] =
      [Sample.needs Sample.lib [], Sample.needs Sample.core []] := by decide +kernel

/-- An entry that a package brings in as its parent, one step below it. -/
def Dependency.entryBelow (c : Coordinate) (d : Dependency) : Entry :=
  ⟨d.coordinate, 1, d.kind, some c⟩

theorem excluded_child_root (c : Coordinate) (d : Dependency) :
    ((Pending.root c).child d).excluded = false :=
  decide_eq_false (by simp [Pending.child, Pending.below, Pending.root])

theorem offspring_root {m : Manifest} (fetched : cat.fetch c = .ok m) :
    offspring cat scopes (.root c) =
      (m.dependencies.filter fun d => decide (d.scope ∈ scopes)).map (Pending.root c).child := by
  have fetched : cat.fetch (Pending.root c).coordinate = .ok m := fetched
  simp only [offspring, fetched]
  rfl

theorem admitted_root_cons (c : Coordinate) (items : List Pending) :
    admitted (.root c :: items) =
      .root c :: (firstsBy Pending.identity (items.filter fun p => !p.excluded)).filter
        fun p => p.identity ≠ c.identity := by
  rw [admitted_eq, List.filter_cons_of_pos rfl, firstsBy]
  rfl

namespace Explored

variable {items : List Pending}

/-- The root comes first, then what it brings in, and all else is further away. -/
theorem exists_eq_cons (h : Explored cat scopes [c] items) :
    ∃ later, items = .root c :: (offspring cat scopes (.root c) ++ later) ∧
      ∀ p ∈ later, 1 < p.depth := by
  obtain ⟨tail, split, brought⟩ : ∃ tail, items = .root c :: tail ∧
      tail = (admitted items).flatMap (offspring cat scopes) := ⟨_, h.eq_append, rfl⟩
  have deep : ∀ q ∈ tail, 0 < q.depth := by
    intro q hq
    obtain ⟨a, -, hq⟩ := List.mem_flatMap.mp (brought ▸ hq)
    rw [depth_of_mem_offspring hq]
    omega
  obtain ⟨rest, first, inside⟩ :
      ∃ rest, admitted items = .root c :: rest ∧ rest.Sublist tail :=
    ⟨_, split ▸ admitted_root_cons c tail,
      List.filter_sublist.trans ((firstsBy_sublist _ _).trans List.filter_sublist)⟩
  refine ⟨rest.flatMap (offspring cat scopes), ?_, fun p hp => ?_⟩
  · rw [first, List.flatMap_cons] at brought
    rw [split, brought]
  · obtain ⟨q, hq, hp⟩ := List.mem_flatMap.mp hp
    have := deep q (inside.subset hq)
    rw [depth_of_mem_offspring hp]
    omega

/-- What is admitted after the root: the listing without repetitions, then packages further away. -/
theorem exists_admitted_eq_cons (h : Explored cat scopes [c] items) {m : Manifest}
    (fetched : cat.fetch c = .ok m) :
    ∃ far, admitted items = .root c ::
        ((directDependencies c (m.dependencies.filter fun d => decide (d.scope ∈ scopes))).map
          (Pending.root c).child ++ far) ∧
      ∀ p ∈ far, 1 < p.depth := by
  obtain ⟨later, rfl, deep⟩ := h.exists_eq_cons
  rw [offspring_root fetched]
  generalize m.dependencies.filter (fun d => decide (d.scope ∈ scopes)) = ds
  have allowed : (ds.map (Pending.root c).child).filter (fun p => !p.excluded) =
      ds.map (Pending.root c).child := by
    refine List.filter_eq_self.mpr fun p hp => ?_
    obtain ⟨d, -, rfl⟩ := List.mem_map.mp hp
    rw [excluded_child_root]
    rfl
  rw [admitted_root_cons, List.filter_append, allowed, firstsBy_append, firstsBy_map,
    List.filter_append, List.filter_map]
  refine ⟨_, rfl, fun p hp => deep p ?_⟩
  have kept := (firstsBy_sublist Pending.identity _).subset
    (List.mem_of_mem_filter (List.mem_of_mem_filter hp))
  exact List.mem_of_mem_filter kept

theorem direct_entries (h : Explored cat scopes [c] items) {m : Manifest}
    (fetched : cat.fetch c = .ok m) :
    (met items).entries.filter (fun e => e.depth = 1) =
      (directDependencies c (m.dependencies.filter fun d => decide (d.scope ∈ scopes))).map
        (Dependency.entryBelow c) := by
  obtain ⟨far, whole, deep⟩ := h.exists_admitted_eq_cons fetched
  have none : (far.map Pending.entry).filter (fun e => e.depth = 1) = [] := by
    refine List.filter_eq_nil_iff.mpr fun e he => ?_
    obtain ⟨p, hp, rfl⟩ := List.mem_map.mp he
    exact fun one => Nat.ne_of_gt (deep p hp) (of_decide_eq_true one)
  rw [entries_met, whole, List.map_cons, List.map_append, List.map_map,
    List.filter_cons_of_neg (by simp [Pending.entry, Pending.root]), List.filter_append, none,
    List.append_nil, List.filter_eq_self.mpr]
  · rfl
  · intro e he
    obtain ⟨d, -, rfl⟩ := List.mem_map.mp he
    rfl

end Explored

/-! ### Runs that are cut short -/

/-- An outage is reported for a package whose manifest was asked for in vain. -/
theorem fetch_of_expand_error {ps : List Pending} {stop : Coordinate} {reason : String}
    (h : expand cat scopes ps = .error (stop, reason)) :
    cat.fetch stop = .error (.store (.unavailable reason)) := by
  induction ps with
  | nil => cases h
  | cons p ps ih =>
    have rest : ∀ {f : Expansion → Expansion},
        (expand cat scopes ps).map f = .error (stop, reason) →
          expand cat scopes ps = .error (stop, reason) := by
      intro f h
      cases hx : expand cat scopes ps with
      | error e => simpa [hx, Except.map] using h
      | ok x => simp [hx, Except.map] at h
    unfold expand at h
    split at h
    · exact ih (rest h)
    · rename_i e failed
      split at h
      · rename_i out
        cases h
        rw [failed, FetchError.outage?_eq_some_iff.mp out]
      · exact ih (rest h)

/-- Going on from a level comes to an end unless the store is out. -/
theorem runLevels_reached_or_outage (cat : Catalog) (scopes : ScopeSet) {roots : List Coordinate}
    (r : Resolution) (failures : List BranchFailure) (level : List Pending)
    (reach : ∀ p ∈ level, cat.Reaches roots p.identity) :
    (∃ y, (runLevels cat scopes roots r failures level reach).Reached y) ∨
      ∃ stop reason, (runLevels cat scopes roots r failures level reach).outcome =
          .error (.storeUnavailable stop reason) ∧
        cat.fetch stop = .error (.store (.unavailable reason)) := by
  fun_induction runLevels cat scopes roots r failures level reach with
  | case1 r failures => exact .inl ⟨r, r.reached_outcome failures [] 0⟩
  | case2 r failures p ps reach met fetched stop reason hx =>
    exact .inr ⟨stop, reason, rfl, fetch_of_expand_error hx⟩
  | case3 r failures p ps reach met fetched x hx _ ih => exact ih

theorem resolve_reached_or_outage (cat : Catalog) (scopes : ScopeSet) {roots : List Coordinate}
    (named : roots ≠ []) :
    (∃ y, (resolve cat scopes roots).Reached y) ∨
      ∃ stop reason, (resolve cat scopes roots).outcome = .error (.storeUnavailable stop reason) ∧
        cat.fetch stop = .error (.store (.unavailable reason)) := by
  unfold resolve
  rw [if_neg (by simpa using named)]
  exact runLevels_reached_or_outage cat scopes _ _ _ _

/-! ### Listings -/

namespace Repository

variable {σ : Type} [ArtifactStore σ] {r : Repository σ}

theorem dependencies_eq_error_iff {e : FetchError} :
    r.dependencies c = .error e ↔ (ArtifactStore.catalog r.store).fetch c = .error e := by
  unfold dependencies
  cases (ArtifactStore.catalog r.store).fetch c <;> simp [Except.map]

theorem dependencies_eq_ok_iff {ds : List Dependency} :
    r.dependencies c = .ok ds ↔ ∃ m, (ArtifactStore.catalog r.store).fetch c = .ok m ∧
      (m.dependencies.filter fun d => decide (d.scope ∈ r.options.scopes)) = ds := by
  unfold dependencies
  cases (ArtifactStore.catalog r.store).fetch c <;> simp [Except.map, followed]

/-- A repository cannot list the dependencies of a package exactly if the manifest of the package
cannot be had. Then a run over the package fails at it and with the error that the repository
answers. If there is a listing, what the run leaves behind has one step below the package the first
dependency of each identity in the listing, but for the identity of the package; unless the store is
out for a package further down, and the run leaves nothing behind. -/
theorem dependencies_agree (r : Repository σ) (c : Coordinate) :
    ((∃ e, r.dependencies c = .error e) ↔
      ∃ e, (ArtifactStore.catalog r.store).fetch c = .error e) ∧
    (∀ e, r.dependencies c = .error e →
      (ArtifactStore.catalog r.store).fetch c = .error e ∧
      (PackageError.ofFetch e).origin? = some e ∧
      ∃ error, r.resolve [c] = .error error ∧ FailsAt c e error) ∧
    ∀ ds, r.dependencies c = .ok ds →
      (∃ y, (r.resolve [c] = .ok y ∨ ∃ fs, r.resolve [c] = .error (.unresolved fs y)) ∧
        y.entries.filter (fun e => e.depth = 1) =
          (directDependencies c ds).map (Dependency.entryBelow c)) ∨
      ∃ stop reason, stop ≠ c ∧ r.resolve [c] = .error (.storeUnavailable stop reason) := by
  refine ⟨exists_congr fun _ => dependencies_eq_error_iff, fun e failed => ?_, fun ds listed => ?_⟩
  · have failed := dependencies_eq_error_iff.mp failed
    exact ⟨failed, PackageError.origin?_ofFetch e, resolve_of_error failed r.options.scopes⟩
  · obtain ⟨m, fetched, rfl⟩ := dependencies_eq_ok_iff.mp listed
    obtain ⟨y, reached⟩ | ⟨stop, reason, cut, out⟩ :=
      resolve_reached_or_outage (ArtifactStore.catalog r.store) r.options.scopes
        (List.cons_ne_nil c [])
    · refine .inl ⟨y, reached, ?_⟩
      obtain ⟨-, items, explored, rfl⟩ := exists_explored reached
      exact explored.direct_entries fetched
    · refine .inr ⟨stop, reason, ?_, cut⟩
      rintro rfl
      cases fetched.symm.trans out

end Repository

/-- A repository in which `lib` has no manifest, and `core` needs `util`. -/
def Sample.gappyRepository : Repository MemoryStore := .new gappy .default

open Sample in
theorem Repository.dependencies_agree_sample :
    gappyRepository.dependencies lib = .error noLib.error ∧
      (∃ error, gappyRepository.resolve [lib] = .error error ∧ FailsAt lib noLib.error error) ∧
      gappyRepository.dependencies core = .ok [needs util []] ∧
      ((∃ y, (gappyRepository.resolve [core] = .ok y ∨
          ∃ fs, gappyRepository.resolve [core] = .error (.unresolved fs y)) ∧
          y.entries.filter (fun e => e.depth = 1) = [⟨util, 1, .jar, some core⟩]) ∨
        ∃ stop reason, stop ≠ core ∧
          gappyRepository.resolve [core] = .error (.storeUnavailable stop reason)) := by
  have missing : gappyRepository.dependencies lib = .error noLib.error := by decide +kernel
  have listed : gappyRepository.dependencies core = .ok [needs util []] := by decide +kernel
  obtain ⟨-, failed, -⟩ := dependencies_agree gappyRepository lib
  obtain ⟨-, -, found⟩ := dependencies_agree gappyRepository core
  exact ⟨missing, (failed _ missing).2.2, listed, found _ listed⟩

end Depot
