import Depot.Resolution.Basic

/-!
# Resolution by levels

All packages at one distance from the roots are met before any package further away. Of each
identity the first one met is selected, and an excluded package is passed over. The manifests
of all packages that were admitted on a level are fetched together, and their dependencies
are the next level.

The loop ends because each level but the last admits an identity that is named by a root or
declared in the catalog, and there are finitely many of those.
-/

namespace Depot

/-- A package to be met. What the path to it excludes applies to the package itself; what its
own declaration excludes applies below it. -/
structure Pending where
  coordinate : Coordinate
  depth : Nat
  kind : Kind
  parent : Option Coordinate
  inherited : OrderedSet ArtifactKey
  declared : OrderedSet ArtifactKey

namespace Pending

def root (c : Coordinate) : Pending := ⟨c, 0, .jar, none, ∅, ∅⟩

def identity (p : Pending) : Identity := p.coordinate.identity

def entry (p : Pending) : Entry := ⟨p.coordinate, p.depth, p.kind, p.parent⟩

def omission (p : Pending) : Omission := ⟨p.coordinate.version, p.depth, p.parent⟩

def excluded (p : Pending) : Bool := decide (p.coordinate.artifactKey ∈ p.inherited)

/-- The exclusions in force for everything below. -/
def below (p : Pending) : OrderedSet ArtifactKey := p.inherited.union p.declared

def child (p : Pending) (d : Dependency) : Pending :=
  ⟨d.coordinate, p.depth + 1, d.kind, some p.coordinate, p.below, d.exclusions⟩

/-- What a manifest brings in, in the order of its declarations. -/
def children (scopes : ScopeSet) (p : Pending) (m : Manifest) : List Pending :=
  (m.dependencies.filter fun d => decide (d.scope ∈ scopes)).map p.child

end Pending

namespace Resolution

/-- Meet one package: log it against the entry of its identity, pass it over, or admit it. -/
def meet (r : Resolution) (p : Pending) : Resolution × List Pending :=
  match r.get? p.identity with
  | some e => ({ r with conflicts := Conflict.record e.coordinate e.depth p.omission r.conflicts }, [])
  | none => if p.excluded then (r, []) else ({ r with entries := r.entries ++ [p.entry] }, [p])

/-- Meet packages in order. The second part holds those that were admitted. -/
def meetAll (r : Resolution) : List Pending → Resolution × List Pending
  | [] => (r, [])
  | p :: ps =>
    let (r, now) := r.meet p
    let (r, later) := r.meetAll ps
    (r, now ++ later)

@[simp] theorem meetAll_nil (r : Resolution) : r.meetAll [] = (r, []) := rfl

theorem meetAll_cons (r : Resolution) (p : Pending) (ps : List Pending) :
    r.meetAll (p :: ps) =
      (((r.meet p).1.meetAll ps).1, (r.meet p).2 ++ ((r.meet p).1.meetAll ps).2) := rfl

theorem entries_meet (r : Resolution) (p : Pending) :
    (r.meet p).1.entries = r.entries ++ (r.meet p).2.map Pending.entry := by
  unfold meet
  split
  · simp
  · split <;> simp

theorem entries_meetAll (r : Resolution) (ps : List Pending) :
    (r.meetAll ps).1.entries = r.entries ++ (r.meetAll ps).2.map Pending.entry := by
  induction ps generalizing r with
  | nil => simp
  | cons p ps ih => simp [meetAll_cons, ih, entries_meet]

theorem mem_of_mem_meet {r : Resolution} {p q : Pending} (h : q ∈ (r.meet p).2) : q = p := by
  unfold meet at h
  split at h
  · simp at h
  · split at h <;> simp_all

theorem mem_of_mem_meetAll {r : Resolution} {ps : List Pending} {q : Pending}
    (h : q ∈ (r.meetAll ps).2) : q ∈ ps := by
  induction ps generalizing r with
  | nil => simp at h
  | cons p ps ih =>
    rcases List.mem_append.mp (meetAll_cons r p ps ▸ h) with h | h
    · exact mem_of_mem_meet h ▸ List.mem_cons_self
    · exact List.mem_cons_of_mem p (ih h)

theorem get?_eq_none_iff {r : Resolution} {i : Identity} :
    r.get? i = none ↔ ∀ e ∈ r.entries, e.identity ≠ i := by
  simp [get?]

theorem get?_of_mem_meet {r : Resolution} {p q : Pending} (h : q ∈ (r.meet p).2) :
    r.get? q.identity = none := by
  have hq := mem_of_mem_meet h
  subst hq
  unfold meet at h
  split at h
  · simp at h
  · assumption

/-- Whoever is admitted had no entry of its identity before. -/
theorem get?_of_mem_meetAll {r : Resolution} {ps : List Pending} {q : Pending}
    (h : q ∈ (r.meetAll ps).2) : r.get? q.identity = none := by
  induction ps generalizing r with
  | nil => simp at h
  | cons p ps ih =>
    rcases List.mem_append.mp (meetAll_cons r p ps ▸ h) with h | h
    · exact get?_of_mem_meet h
    · have := ih h
      rw [get?_eq_none_iff, entries_meet] at this
      exact get?_eq_none_iff.mpr fun e he => this e (List.mem_append_left _ he)

end Resolution

/-- What the manifests of one level give. -/
structure Expansion where
  failures : List BranchFailure
  next : List Pending

/-- Read the manifests of the admitted packages in order. An outage of the store ends the
resolution, with the first package that noticed it. -/
def expand (cat : Catalog) (scopes : ScopeSet) : List Pending →
    Except (Coordinate × String) Expansion
  | [] => .ok ⟨[], []⟩
  | p :: ps =>
    match cat.fetch p.coordinate with
    | .ok m =>
      (expand cat scopes ps).map fun x => { x with next := p.children scopes m ++ x.next }
    | .error e =>
      match e.outage? with
      | some reason => .error (p.coordinate, reason)
      | none =>
        (expand cat scopes ps).map fun x => { x with failures := ⟨p.coordinate, e⟩ :: x.failures }

/-- Everything on the next level is declared in some manifest. -/
theorem declares_of_expand {cat : Catalog} {scopes : ScopeSet} {ps : List Pending} {x : Expansion}
    (h : expand cat scopes ps = .ok x) : ∀ q ∈ x.next, cat.Declares q.identity := by
  induction ps generalizing x with
  | nil => simp only [expand, Except.ok.injEq] at h; subst h; simp
  | cons p ps ih =>
    unfold expand at h
    split at h
    · rename_i m hm
      cases hx : expand cat scopes ps with
      | error e => simp [hx, Except.map] at h
      | ok y =>
        simp only [hx, Except.map, Except.ok.injEq] at h
        subst h
        intro q hq
        rcases List.mem_append.mp hq with hq | hq
        · simp only [Pending.children, List.mem_map, List.mem_filter] at hq
          obtain ⟨d, ⟨hd, _⟩, rfl⟩ := hq
          exact ⟨p.coordinate, m, d, hm, hd, rfl⟩
        · exact ih hx q hq
    · rename_i e _
      cases ho : e.outage? with
      | some reason => simp [ho] at h
      | none =>
        cases hx : expand cat scopes ps with
        | error e => simp [ho, hx, Except.map] at h
        | ok y =>
          simp only [ho, hx, Except.map, Except.ok.injEq] at h
          subst h
          exact fun q hq => ih hx q hq

namespace Catalog

/-- Named by a root or declared in a manifest. -/
def Reaches (cat : Catalog) (roots : List Coordinate) (i : Identity) : Prop :=
  i ∈ roots.map Coordinate.identity ∨ cat.Declares i

/-- A list with all that can be reached, and nothing selected yet. -/
noncomputable def unselected (cat : Catalog) (roots : List Coordinate) (r : Resolution) :
    List Identity :=
  (roots.map Coordinate.identity ++ cat.declared).filter fun i => (r.get? i).isNone

theorem unselected_le (cat : Catalog) (roots : List Coordinate) (r : Resolution)
    (ps : List Pending) :
    (cat.unselected roots (r.meetAll ps).1).length ≤ (cat.unselected roots r).length := by
  unfold unselected
  rw [← List.countP_eq_length_filter, ← List.countP_eq_length_filter]
  refine List.countP_mono_left fun i _ h => ?_
  rw [Option.isNone_iff_eq_none, Resolution.get?_eq_none_iff] at h ⊢
  intro e he
  exact h e (by rw [Resolution.entries_meetAll]; exact List.mem_append_left _ he)

theorem unselected_lt {cat : Catalog} {roots : List Coordinate} {r : Resolution}
    {ps : List Pending} {q : Pending} (hps : ∀ p ∈ ps, cat.Reaches roots p.identity)
    (hq : q ∈ (r.meetAll ps).2) :
    (cat.unselected roots (r.meetAll ps).1).length < (cat.unselected roots r).length := by
  have mem : q.identity ∈ cat.unselected roots r := by
    refine List.mem_filter.mpr ⟨?_, by simp [Resolution.get?_of_mem_meetAll hq]⟩
    rcases hps q (Resolution.mem_of_mem_meetAll hq) with h | h
    · exact List.mem_append_left _ h
    · exact List.mem_append_right _ (mem_declared h)
  have sub : cat.unselected roots (r.meetAll ps).1 =
      (cat.unselected roots r).filter fun i => ((r.meetAll ps).1.get? i).isNone := by
    unfold unselected
    rw [List.filter_filter]
    refine List.filter_congr fun i _ => ?_
    rw [Bool.eq_iff_iff]
    simp only [Bool.and_eq_true, Option.isNone_iff_eq_none, Resolution.get?_eq_none_iff,
      Resolution.entries_meetAll, List.mem_append]
    exact ⟨fun h => ⟨h, fun e he => h e (.inl he)⟩, And.left⟩
  rw [sub]
  refine List.length_filter_lt_length_iff_exists.mpr ⟨q.identity, mem, ?_⟩
  simp only [Option.isNone_iff_eq_none, Resolution.get?_eq_none_iff, Resolution.entries_meetAll]
  intro h
  exact h q.entry (List.mem_append_right _ (List.mem_map_of_mem hq)) rfl

end Catalog

/-- The outcome of a resolution, with the coordinates whose manifests were fetched and the
number of levels. -/
structure Run where
  outcome : Except ResolveError Resolution
  fetched : List Coordinate
  levels : Nat

def Resolution.outcome (r : Resolution) (failures : List BranchFailure) :
    Except ResolveError Resolution :=
  if failures.isEmpty then .ok r else .error (.unresolved failures r)

/-- A run left this behind: it succeeded with it, or it reached it around failed branches. -/
def Run.Reached (run : Run) (r : Resolution) : Prop :=
  run.outcome = .ok r ∨ ∃ failures, run.outcome = .error (.unresolved failures r)

def Run.after (fetched : List Coordinate) (run : Run) : Run :=
  ⟨run.outcome, fetched ++ run.fetched, run.levels + 1⟩

/-- Meet a level, fetch what was admitted, and go on with the next level. -/
def runLevels (cat : Catalog) (scopes : ScopeSet) (roots : List Coordinate) (r : Resolution)
    (failures : List BranchFailure) (level : List Pending)
    (reach : ∀ p ∈ level, cat.Reaches roots p.identity) : Run :=
  match level with
  | [] => ⟨r.outcome failures, [], 0⟩
  | p :: ps =>
    let met := r.meetAll (p :: ps)
    let fetched := met.2.map Pending.coordinate
    match hx : expand cat scopes met.2 with
    | .error (c, reason) => ⟨.error (.storeUnavailable c reason), fetched, 1⟩
    | .ok x =>
      (runLevels cat scopes roots met.1 (failures ++ x.failures) x.next
        fun q hq => .inr (declares_of_expand hx q hq)).after fetched
  termination_by ((cat.unselected roots r).length, level.length)
  decreasing_by
    cases hm : (r.meetAll (p :: ps)).2 with
    | nil =>
      rw [hm] at hx
      simp only [expand, Except.ok.injEq] at hx
      subst hx
      have le := cat.unselected_le roots r (p :: ps)
      rcases Nat.lt_or_eq_of_le le with lt | eq
      · exact Prod.Lex.left _ _ lt
      · rw [eq]; exact Prod.Lex.right _ (by simp)
    | cons q qs =>
      exact Prod.Lex.left _ _ (Catalog.unselected_lt reach (by rw [hm]; exact List.mem_cons_self))

/-- The first of each value, in order. -/
def firsts {α : Type} [DecidableEq α] : List α → List α
  | [] => []
  | a :: as => a :: (firsts as).filter (· ≠ a)

@[simp] theorem mem_firsts {α : Type} [DecidableEq α] {a : α} {as : List α} :
    a ∈ firsts as ↔ a ∈ as := by
  induction as with
  | nil => simp [firsts]
  | cons b as ih => by_cases h : a = b <;> simp [firsts, ih, h]

/-- The packages that roots need, themselves included. -/
def resolve (cat : Catalog) (scopes : ScopeSet) (roots : List Coordinate) : Run :=
  if roots.isEmpty then ⟨.error .noRoots, [], 0⟩
  else
    runLevels cat scopes roots .empty [] ((firsts roots).map Pending.root) (by
      intro p hp
      obtain ⟨c, hc, rfl⟩ := List.mem_map.mp hp
      exact .inl (List.mem_map_of_mem (mem_firsts.mp hc)))

end Depot
