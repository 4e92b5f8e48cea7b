import Mathlib.Data.List.Basic
import Depot.Resolution.Levels

/-!
# Traces

Everything that a resolution meets, in one list: the first level, then what the admitted packages
of that level bring in, and so on until a level is empty. A run that the store does not cut short
has a trace, and the trace alone determines its outcome. The trace depends on the manifests of
the packages that it admits and on no others.
-/

namespace Depot

namespace Catalog

/-- The branch that fails if a package of this coordinate is selected. -/
def failure? (cat : Catalog) (c : Coordinate) : Option BranchFailure :=
  match cat.fetch c with
  | .ok _ => none
  | .error e => some ⟨c, e⟩

/-- The store as a whole is there when the manifest is fetched. -/
def Answers (cat : Catalog) (c : Coordinate) : Prop :=
  ∀ e, cat.fetch c = .error e → e.outage? = none

theorem failure?_congr {cat cat' : Catalog} {c : Coordinate} (same : cat.fetch c = cat'.fetch c) :
    cat.failure? c = cat'.failure? c := by simp only [failure?, same]

end Catalog

/-- What an admitted package brings in; nothing if its manifest cannot be had. -/
def offspring (cat : Catalog) (scopes : ScopeSet) (p : Pending) : List Pending :=
  match cat.fetch p.coordinate with
  | .ok m => p.children scopes m
  | .error _ => []

theorem offspring_congr {cat cat' : Catalog} {p : Pending} (scopes : ScopeSet)
    (same : cat.fetch p.coordinate = cat'.fetch p.coordinate) :
    offspring cat scopes p = offspring cat' scopes p := by simp only [offspring, same]

namespace Resolution

theorem meetAll_append (r : Resolution) (ps qs : List Pending) :
    r.meetAll (ps ++ qs) =
      (((r.meetAll ps).1.meetAll qs).1, (r.meetAll ps).2 ++ ((r.meetAll ps).1.meetAll qs).2) := by
  induction ps generalizing r with
  | nil => rfl
  | cons p ps ih => simp only [List.cons_append, meetAll_cons, ih, List.append_assoc]

end Resolution

variable {cat cat' : Catalog} {scopes : ScopeSet}

/-- As long as the store answers, expanding a level collects failures and offspring. -/
theorem expand_of_answers (scopes : ScopeSet) {ps : List Pending}
    (answers : ∀ p ∈ ps, cat.Answers p.coordinate) :
    expand cat scopes ps =
      .ok ⟨ps.filterMap fun p => cat.failure? p.coordinate, ps.flatMap (offspring cat scopes)⟩ := by
  induction ps with
  | nil => rfl
  | cons p ps ih =>
    have ih := ih fun q hq => answers q (List.mem_cons_of_mem p hq)
    cases hf : cat.fetch p.coordinate with
    | ok m => simp [expand, hf, ih, Except.map, Catalog.failure?, offspring]
    | error e =>
      have ho := answers p List.mem_cons_self e hf
      simp [expand, hf, ho, ih, Except.map, Catalog.failure?, offspring]

/-- Conversely, a level that could be expanded met no outage. -/
theorem answers_of_expand {ps : List Pending} {x : Expansion} (h : expand cat scopes ps = .ok x) :
    ∀ p ∈ ps, cat.Answers p.coordinate := by
  induction ps generalizing x with
  | nil => simp
  | cons p ps ih =>
    cases hx : expand cat scopes ps with
    | error e =>
      -- the error of the rest would be the error of the whole
      unfold expand at h
      split at h
      · simp [hx, Except.map] at h
      · split at h <;> simp [hx, Except.map] at h
    | ok y =>
      intro q hq
      rcases List.mem_cons.mp hq with rfl | hq
      · intro e he
        cases ho : e.outage? with
        | none => rfl
        | some reason => simp [expand, he, ho] at h
      · exact ih hx q hq

@[simp] theorem Run.outcome_after (fetched : List Coordinate) (run : Run) :
    (run.after fetched).outcome = run.outcome := rfl

/-- A level whose manifests could be fetched hands over to the next level. -/
theorem runLevels_ok {roots : List Coordinate} {r : Resolution} {failures : List BranchFailure}
    {p : Pending} {ps : List Pending} {x : Expansion}
    {reach : ∀ q ∈ p :: ps, cat.Reaches roots q.identity}
    (hx : expand cat scopes (r.meetAll (p :: ps)).2 = .ok x) :
    runLevels cat scopes roots r failures (p :: ps) reach =
      (runLevels cat scopes roots (r.meetAll (p :: ps)).1 (failures ++ x.failures) x.next
        fun q hq => .inr (declares_of_expand hx q hq)).after
          ((r.meetAll (p :: ps)).2.map Pending.coordinate) := by
  rw [runLevels]
  split
  · rename_i h
    rw [hx] at h
    exact absurd h (by simp)
  · rename_i y h
    rw [hx] at h
    cases h
    rfl

/-- `Trace r level items`: from a level on, with some packages selected before, exactly these
packages are met, in this order. -/
inductive Trace (cat : Catalog) (scopes : ScopeSet) :
    Resolution → List Pending → List Pending → Prop where
  | nil (r : Resolution) : Trace cat scopes r [] []
  | level {r : Resolution} {p : Pending} {ps rest : List Pending}
      (later : Trace cat scopes (r.meetAll (p :: ps)).1
        ((r.meetAll (p :: ps)).2.flatMap (offspring cat scopes)) rest) :
      Trace cat scopes r (p :: ps) (p :: ps ++ rest)

namespace Trace

variable {r : Resolution} {level items : List Pending}

/-- Whatever is met later was brought in by a package that was admitted. -/
theorem eq_append (h : Trace cat scopes r level items) :
    items = level ++ (r.meetAll items).2.flatMap (offspring cat scopes) := by
  induction h with
  | nil r => rfl
  | @level r p ps rest later ih =>
    rw [Resolution.meetAll_append, List.flatMap_append, ← ih]

/-- Another catalog gives the same trace if all that is admitted brings in the same. -/
theorem congr (h : Trace cat scopes r level items)
    (same : ∀ p ∈ (r.meetAll items).2, offspring cat scopes p = offspring cat' scopes p) :
    Trace cat' scopes r level items := by
  induction h with
  | nil r => exact .nil r
  | @level r p ps rest later ih =>
    rw [Resolution.meetAll_append] at same
    have now : (r.meetAll (p :: ps)).2.flatMap (offspring cat scopes) =
        (r.meetAll (p :: ps)).2.flatMap (offspring cat' scopes) :=
      List.flatMap_congr fun q hq => same q (List.mem_append_left _ hq)
    have ih := ih fun q hq => same q (List.mem_append_right _ hq)
    rw [now] at ih
    exact .level ih

/-- A trace without outages is what the level loop follows. -/
theorem outcome (h : Trace cat scopes r level items)
    (answers : ∀ p ∈ (r.meetAll items).2, cat.Answers p.coordinate) (roots : List Coordinate)
    (failures : List BranchFailure) (reach : ∀ p ∈ level, cat.Reaches roots p.identity) :
    (runLevels cat scopes roots r failures level reach).outcome =
      (r.meetAll items).1.outcome
        (failures ++ (r.meetAll items).2.filterMap fun p => cat.failure? p.coordinate) := by
  induction h generalizing failures with
  | nil r => simp [runLevels]
  | @level r p ps rest later ih =>
    rw [Resolution.meetAll_append] at answers ⊢
    have now := expand_of_answers scopes
      fun q hq => answers q (List.mem_append_left _ hq)
    have ih := ih fun q hq => answers q (List.mem_append_right _ hq)
    have next := ih (failures ++ (r.meetAll (p :: ps)).2.filterMap fun p => cat.failure? p.coordinate)
      fun q hq => .inr (declares_of_expand now q hq)
    rw [runLevels_ok now, Run.outcome_after, List.filterMap_append, ← List.append_assoc]
    exact next

end Trace

/-- A run that left something behind has followed a trace, and the store answered all along. -/
theorem exists_trace {roots : List Coordinate} {r s : Resolution} {failures : List BranchFailure}
    {level : List Pending} {reach : ∀ p ∈ level, cat.Reaches roots p.identity}
    (h : (runLevels cat scopes roots r failures level reach).Reached s) :
    ∃ items, Trace cat scopes r level items ∧ s = (r.meetAll items).1 ∧
      ∀ p ∈ (r.meetAll items).2, cat.Answers p.coordinate := by
  fun_induction runLevels cat scopes roots r failures level reach with
  | case1 r failures =>
    refine ⟨[], .nil r, ?_, by simp⟩
    unfold Run.Reached Resolution.outcome at h
    split at h <;> simp_all
  | case2 r failures p ps reach met fetched c reason hx => simp [Run.Reached] at h
  | case3 r failures p ps reach met fetched x hx _ ih =>
    obtain ⟨rest, later, hs, answers⟩ := ih h
    have now := answers_of_expand hx
    rw [expand_of_answers scopes now] at hx
    cases hx
    refine ⟨p :: ps ++ rest, .level later, ?_, ?_⟩
    · rw [Resolution.meetAll_append]
      exact hs
    · intro q hq
      rw [Resolution.meetAll_append] at hq
      rcases List.mem_append.mp hq with hq | hq
      · exact now q hq
      · exact answers q hq

/-- The packages that are admitted, if these are met from the beginning. -/
def admitted (items : List Pending) : List Pending := (Resolution.empty.meetAll items).2

/-- What is selected and logged, if these are met from the beginning. -/
def met (items : List Pending) : Resolution := (Resolution.empty.meetAll items).1

theorem entries_met (items : List Pending) :
    (met items).entries = (admitted items).map Pending.entry :=
  Resolution.entries_meetAll .empty items

/-- These are met, in this order, in a run over roots that the store does not cut short. -/
structure Explored (cat : Catalog) (scopes : ScopeSet) (roots : List Coordinate)
    (items : List Pending) : Prop where
  trace : Trace cat scopes .empty ((firsts roots).map Pending.root) items
  answers : ∀ p ∈ admitted items, cat.Answers p.coordinate

namespace Explored

variable {roots : List Coordinate} {items : List Pending}

theorem eq_append (h : Explored cat scopes roots items) :
    items = (firsts roots).map Pending.root ++ (admitted items).flatMap (offspring cat scopes) :=
  h.trace.eq_append

/-- What was met decides the outcome: the failures are those of the admitted packages. -/
theorem outcome_resolve (h : Explored cat scopes roots items) (named : roots ≠ []) :
    (resolve cat scopes roots).outcome =
      (met items).outcome ((admitted items).filterMap fun p => cat.failure? p.coordinate) := by
  unfold resolve
  rw [if_neg (by simpa using named), h.trace.outcome h.answers, List.nil_append]
  rfl

/-- Only the manifests of admitted packages matter. -/
theorem congr (h : Explored cat scopes roots items)
    (same : ∀ p ∈ admitted items, cat.fetch p.coordinate = cat'.fetch p.coordinate) :
    Explored cat' scopes roots items where
  trace := h.trace.congr fun p hp => offspring_congr scopes (same p hp)
  answers p hp e he := h.answers p hp e ((same p hp).trans he)

end Explored

theorem exists_explored {roots : List Coordinate} {r : Resolution}
    (h : (resolve cat scopes roots).Reached r) :
    roots ≠ [] ∧ ∃ items, Explored cat scopes roots items ∧ r = met items := by
  unfold resolve at h
  split at h
  · simp [Run.Reached] at h
  · rename_i named
    obtain ⟨items, trace, hr, answers⟩ := exists_trace h
    exact ⟨by simpa using named, items, ⟨trace, answers⟩, hr⟩

/-- A run depends on the manifests of the packages that it selects and on no others: if two
catalogs agree on those of one outcome, they have that outcome in common. -/
theorem outcome_congr {roots : List Coordinate} {r : Resolution}
    (h : (resolve cat scopes roots).Reached r)
    (same : ∀ e ∈ r.entries, cat.fetch e.coordinate = cat'.fetch e.coordinate) :
    (resolve cat scopes roots).outcome = (resolve cat' scopes roots).outcome := by
  obtain ⟨named, items, explored, rfl⟩ := exists_explored h
  rw [entries_met] at same
  have same : ∀ p ∈ admitted items, cat.fetch p.coordinate = cat'.fetch p.coordinate :=
    fun p hp => same p.entry (List.mem_map_of_mem hp)
  have failures : ((admitted items).filterMap fun p => cat.failure? p.coordinate) =
      (admitted items).filterMap fun p => cat'.failure? p.coordinate :=
    List.filterMap_congr fun p hp => Catalog.failure?_congr (same p hp)
  rw [explored.outcome_resolve named, (explored.congr same).outcome_resolve named, failures]

end Depot
