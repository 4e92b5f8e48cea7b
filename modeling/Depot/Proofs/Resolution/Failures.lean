import Mathlib.Data.List.Nodup
import Depot.Proofs.Resolution.Queue
import Depot.Proofs.Resolution.Selection
import Depot.Proofs.Store.Catalogs

/-!
# Failing branches

An entry whose manifest cannot be had is selected all the same, and nothing is known below it. So
a run meets what it would meet if that manifest were there and declared nothing, and its failures
can be read off its entries.
-/

namespace Depot

variable {cat cat' : Catalog} {scopes : ScopeSet}

namespace Resolution

/-- The branches that fail, in the order of the entries. -/
def failures (cat : Catalog) (r : Resolution) : List BranchFailure :=
  r.entries.filterMap fun e => cat.failure? e.coordinate

theorem reached_outcome (r : Resolution) (failures : List BranchFailure) (fetched : List Coordinate)
    (levels : Nat) : (Run.mk (r.outcome failures) fetched levels).Reached r := by
  cases failures with
  | nil => exact .inl rfl
  | cons f fs => exact .inr ⟨f :: fs, rfl⟩

theorem outcome_eq_unresolved_iff {r s : Resolution} {fs gs : List BranchFailure} :
    r.outcome fs = .error (.unresolved gs s) ↔ fs ≠ [] ∧ gs = fs ∧ s = r := by
  unfold outcome
  cases fs with
  | nil => simp
  | cons f fs => simp [eq_comm]

end Resolution

namespace Catalog

theorem failure?_eq_some_iff {c : Coordinate} {f : BranchFailure} :
    cat.failure? c = some f ↔ f.coordinate = c ∧ cat.fetch c = .error f.error := by
  obtain ⟨d, e⟩ := f
  unfold failure?
  cases cat.fetch c <;> simp [eq_comm]

/-- The second catalog is the first one with the manifests of some coordinates replaced: they are
there, belong to the same coordinates, and declare nothing. -/
structure Emptied (cs : List Coordinate) (cat cat' : Catalog) : Prop where
  empty : ∀ c, c.manifestOf ∈ cs.map Coordinate.manifestOf →
    ∃ m, cat'.fetch c = .ok m ∧ m.identity = c.manifestOf ∧ m.dependencies = []
  same : ∀ c, c.manifestOf ∉ cs.map Coordinate.manifestOf → cat'.fetch c = cat.fetch c

end Catalog

theorem offspring_of_error {p : Pending} {e : FetchError} (h : cat.fetch p.coordinate = .error e) :
    offspring cat scopes p = [] := by
  simp only [offspring, h]

theorem offspring_of_empty {p : Pending} {m : Manifest} (h : cat.fetch p.coordinate = .ok m)
    (empty : m.dependencies = []) : offspring cat scopes p = [] := by
  simp [offspring, h, Pending.children, empty]

/-- If the store answers for all that may be met, a run comes to its end. -/
theorem exists_reached_of_forall {P : Pending → Prop}
    (step : ∀ p, P p → ∀ q ∈ offspring cat scopes p, P q)
    (answers : ∀ p, P p → cat.Answers p.coordinate) {roots : List Coordinate} {r : Resolution}
    {failures : List BranchFailure} {level : List Pending}
    {reach : ∀ p ∈ level, cat.Reaches roots p.identity} (start : ∀ p ∈ level, P p) :
    ∃ s, (runLevels cat scopes roots r failures level reach).Reached s := by
  fun_induction runLevels cat scopes roots r failures level reach with
  | case1 r failures => exact ⟨r, r.reached_outcome failures [] 0⟩
  | case2 r failures p ps reach met fetched c reason hx =>
    have there : ∀ q ∈ met.2, cat.Answers q.coordinate :=
      fun q hq => answers q (start q (Resolution.mem_of_mem_meetAll hq))
    rw [expand_of_answers scopes there] at hx
    cases hx
  | case3 r failures p ps reach met fetched x hx _ ih =>
    have there : ∀ q ∈ met.2, cat.Answers q.coordinate :=
      fun q hq => answers q (start q (Resolution.mem_of_mem_meetAll hq))
    rw [expand_of_answers scopes there] at hx
    cases hx
    refine ih fun q hq => ?_
    obtain ⟨a, ha, hq⟩ := List.mem_flatMap.mp hq
    exact step a (start a (Resolution.mem_of_mem_meetAll ha)) q hq

namespace Explored

variable {roots : List Coordinate} {items : List Pending}

theorem failures_met (cat : Catalog) (items : List Pending) :
    (met items).failures cat = (admitted items).filterMap fun p => cat.failure? p.coordinate := by
  rw [Resolution.failures, entries_met, List.filterMap_map]
  rfl

theorem outcome_eq (h : Explored cat scopes roots items) (named : roots ≠ []) :
    (resolve cat scopes roots).outcome = (met items).outcome ((met items).failures cat) := by
  rw [h.outcome_resolve named, failures_met]

/-- The failures are of different packages. -/
theorem nodup_failures (cat : Catalog) (items : List Pending) :
    (((met items).failures cat).map BranchFailure.coordinate).Nodup := by
  have distinct : ((admitted items).map Pending.coordinate).Nodup := by
    have h := nodup_identities items
    rw [show Pending.identity = Coordinate.identity ∘ Pending.coordinate from rfl,
      ← List.map_map] at h
    exact List.Nodup.of_map Coordinate.identity h
  rw [failures_met]
  refine distinct.sublist ?_
  generalize admitted items = ps
  induction ps with
  | nil => exact .slnil
  | cons p ps ih =>
    rw [List.filterMap_cons]
    cases hf : cat.failure? p.coordinate with
    | none => exact ih.cons p.coordinate
    | some f =>
      rw [List.map_cons, List.map_cons, (Catalog.failure?_eq_some_iff.mp hf).1]
      exact ih.cons_cons p.coordinate

/-- A branch that fails brings in what an empty manifest would bring in. -/
theorem offspring_emptied (steady : cat.Steady)
    (emptied : Catalog.Emptied (((met items).failures cat).map BranchFailure.coordinate) cat cat')
    {p : Pending} (hp : p ∈ admitted items) :
    (∃ m, cat'.fetch p.coordinate = .ok m) ∧
      offspring cat scopes p = offspring cat' scopes p := by
  cases hf : cat.fetch p.coordinate with
  | error e =>
    have listed : p.coordinate ∈ ((met items).failures cat).map BranchFailure.coordinate := by
      refine List.mem_map.mpr ⟨⟨p.coordinate, e⟩, ?_, rfl⟩
      rw [failures_met]
      exact List.mem_filterMap.mpr ⟨p, hp, Catalog.failure?_eq_some_iff.mpr ⟨rfl, hf⟩⟩
    obtain ⟨m, hm, -, none⟩ := emptied.empty _ (List.mem_map_of_mem listed)
    exact ⟨⟨m, hm⟩, by rw [offspring_of_error hf, offspring_of_empty hm none]⟩
  | ok m =>
    -- nothing that shares the manifest fails, so it was not replaced
    have kept : p.coordinate.manifestOf ∉
        (((met items).failures cat).map BranchFailure.coordinate).map Coordinate.manifestOf := by
      rw [failures_met]
      intro hm
      obtain ⟨c, hc, shared⟩ := List.mem_map.mp hm
      obtain ⟨f, hm, rfl⟩ := List.mem_map.mp hc
      obtain ⟨q, -, hq⟩ := List.mem_filterMap.mp hm
      obtain ⟨same, failed⟩ := Catalog.failure?_eq_some_iff.mp hq
      rw [← same, steady, shared, ← steady, hf] at failed
      cases failed
    have hm := (emptied.same _ kept).trans hf
    exact ⟨⟨m, hm⟩, offspring_congr scopes (hf.trans hm.symm)⟩

/-- Around failing branches a run meets what it meets when they are empty, and then none fails. -/
theorem outcome_emptied (h : Explored cat scopes roots items) (named : roots ≠ [])
    (steady : cat.Steady)
    (emptied : Catalog.Emptied (((met items).failures cat).map BranchFailure.coordinate) cat cat') :
    (resolve cat' scopes roots).outcome = .ok (met items) := by
  have replaced : ∀ p ∈ admitted items, (∃ m, cat'.fetch p.coordinate = .ok m) ∧
      offspring cat scopes p = offspring cat' scopes p :=
    fun p hp => offspring_emptied steady emptied hp
  have explored : Explored cat' scopes roots items := by
    constructor
    · exact h.trace.congr fun p hp => (replaced p hp).2
    · intro p hp e he
      obtain ⟨m, hm⟩ := (replaced p hp).1
      rw [hm] at he
      cases he
  have none : (met items).failures cat' = [] := by
    rw [failures_met, List.filterMap_eq_nil_iff]
    intro p hp
    obtain ⟨m, hm⟩ := (replaced p hp).1
    simp only [Catalog.failure?, hm]
  rw [explored.outcome_eq named, none]
  rfl

end Explored

/-- As long as the store answers, failing branches are all that can go wrong. A run fails exactly
if the manifest of some entry cannot be had, it names these entries in their order, each once and
with its reason, and all else is as if their manifests were there and declared nothing. -/
theorem unresolved_isolates (steady : cat.Steady) (answers : ∀ c, cat.Answers c)
    (scopes : ScopeSet) {roots : List Coordinate} (named : roots ≠ []) :
    ∃ r, (resolve cat scopes roots).Reached r ∧
      ((∃ fs p, (resolve cat scopes roots).outcome = .error (.unresolved fs p)) ↔
        ∃ e ∈ r.entries, ∃ error, cat.fetch e.coordinate = .error error) ∧
      ∀ fs p, (resolve cat scopes roots).outcome = .error (.unresolved fs p) →
        p = r ∧ fs = p.failures cat ∧ (fs.map BranchFailure.coordinate).Nodup ∧
        ∀ cat', Catalog.Emptied (fs.map BranchFailure.coordinate) cat cat' →
          (resolve cat' scopes roots).outcome = .ok p := by
  have reached : ∃ r, (resolve cat scopes roots).Reached r := by
    unfold resolve
    rw [if_neg (by simpa using named)]
    exact exists_reached_of_forall (P := fun _ => True) (fun _ _ _ _ => trivial)
      (fun p _ => answers p.coordinate) fun _ _ => trivial
  obtain ⟨r, reached⟩ := reached
  obtain ⟨-, items, explored, rfl⟩ := exists_explored reached
  refine ⟨met items, reached, ?_, ?_⟩
  · simp only [explored.outcome_eq named, Resolution.outcome_eq_unresolved_iff]
    constructor
    · rintro ⟨-, -, failed, -, -⟩
      obtain ⟨f, hf⟩ := List.exists_mem_of_ne_nil _ failed
      obtain ⟨e, he, hf⟩ := List.mem_filterMap.mp hf
      exact ⟨e, he, f.error, (Catalog.failure?_eq_some_iff.mp hf).2⟩
    · rintro ⟨e, he, error, hf⟩
      have listed : ⟨e.coordinate, error⟩ ∈ (met items).failures cat :=
        List.mem_filterMap.mpr ⟨e, he, Catalog.failure?_eq_some_iff.mpr ⟨rfl, hf⟩⟩
      exact ⟨_, _, List.ne_nil_of_mem listed, rfl, rfl⟩
  · intro fs p failed
    rw [explored.outcome_eq named, Resolution.outcome_eq_unresolved_iff] at failed
    obtain ⟨-, rfl, rfl⟩ := failed
    exact ⟨rfl, rfl, Explored.nodup_failures cat items, fun cat' emptied =>
      explored.outcome_emptied named steady emptied⟩

namespace Sample

/-- `lib` has no manifest here, and `core` needs `util`. -/
def gappy : MemoryStore :=
  ((MemoryStore.empty.putManifest core (document core (some util))).2.putManifest util
    (document util none)).2

/-- The same with a manifest of `lib` that declares nothing. -/
def mended : MemoryStore := (gappy.putManifest lib (document lib none)).2

def aroundLib : Resolution :=
  ⟨[⟨lib, 0, .jar, none⟩, ⟨core, 0, .jar, none⟩, ⟨util, 1, .jar, some core⟩], []⟩

def noLib : BranchFailure :=
  ⟨lib, .store (.notFound ⟨"mem", "/org/demo/lib/1/lib-1.toml", false⟩)⟩

theorem outcome_gappy :
    (resolve (ArtifactStore.catalog gappy) .runtimeSet [lib, core]).outcome =
      .error (.unresolved [noLib] aroundLib) := by
  apply Queue.outcome_of_run (n := 4)
  · decide +kernel
  · decide +kernel

theorem emptied_mended :
    Catalog.Emptied [lib] (ArtifactStore.catalog gappy) (ArtifactStore.catalog mended) := by
  constructor
  · intro c hc
    have hl : c.manifestOf = lib.manifestOf := by simpa using hc
    refine ⟨⟨lib, [], []⟩, ?_, by rw [hl]; rfl, rfl⟩
    rw [ArtifactStore.steady_catalog, hl]
    decide +kernel
  · intro c hc
    exact MemoryStore.sameBut_putManifest gappy lib _ c (by simpa [eq_comm] using hc)

end Sample

theorem unresolved_isolates_sample :
    (ArtifactStore.catalog Sample.gappy).Steady ∧
      (∀ c, (ArtifactStore.catalog Sample.gappy).Answers c) ∧ [Sample.lib, Sample.core] ≠ [] ∧
      (resolve (ArtifactStore.catalog Sample.gappy) .runtimeSet [Sample.lib, Sample.core]).outcome =
        .error (.unresolved [Sample.noLib] Sample.aroundLib) ∧
      [Sample.noLib] = Sample.aroundLib.failures (ArtifactStore.catalog Sample.gappy) ∧
      (resolve (ArtifactStore.catalog Sample.mended) .runtimeSet [Sample.lib, Sample.core]).outcome =
        .ok Sample.aroundLib := by
  have steady := ArtifactStore.steady_catalog Sample.gappy
  have answers := MemoryStore.answers_of_available (s := Sample.gappy) rfl
  have named : [Sample.lib, Sample.core] ≠ [] := by simp
  obtain ⟨r, -, -, isolated⟩ := unresolved_isolates steady answers .runtimeSet named
  obtain ⟨-, listed, -, mended⟩ := isolated _ _ Sample.outcome_gappy
  exact ⟨steady, answers, named, Sample.outcome_gappy, listed, mended _ Sample.emptied_mended⟩

end Depot
