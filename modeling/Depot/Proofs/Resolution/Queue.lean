import Depot.Resolution.Levels
import Depot.Proofs.Resolution.Table

/-!
# One queue instead of levels

The textbook form of a resolution: packages wait in a single queue, first in first out, and the
manifest of an admitted package is fetched before the next package is taken. No bound on the
number of turns is assumed; that the queue runs empty or the store fails is part of what is
proved. The level loop and the queue end with the same outcome, in success and in every failure.
-/

namespace Depot

/-- What waits, what was selected so far, and the branches that failed so far. -/
structure Queue where
  waiting : List Pending
  entries : List Entry
  conflicts : List Conflict
  failures : List BranchFailure

namespace Queue

/-- A turn ends the whole run or leaves a queue. -/
inductive Turn where
  | ends (o : Except ResolveError Resolution)
  | goes (q : Queue)

/-- Only roots wait, each of them once, with nothing excluded. -/
def start (roots : List Coordinate) : Queue := ⟨(firsts roots).map Pending.root, [], [], []⟩

/-- Fetch the manifest of a package that was just admitted, and put what it declares at the back. -/
def fetch (cat : Catalog) (scopes : ScopeSet) (p : Pending) (q : Queue) : Turn :=
  match cat.fetch p.coordinate with
  | .error e =>
    match e.outage? with
    | some reason => .ends (.error (.storeUnavailable p.coordinate reason))
    | none => .goes { q with failures := q.failures ++ [⟨p.coordinate, e⟩] }
  | .ok m =>
    let followed := m.dependencies.filter fun d => decide (d.scope ∈ scopes)
    let back := followed.map fun d =>
      { coordinate := d.coordinate, depth := p.depth + 1, kind := d.kind
        parent := some p.coordinate, inherited := p.inherited.union p.declared
        declared := d.exclusions : Pending }
    .goes { q with waiting := q.waiting ++ back }

/-- Take the first package: log it if its identity is selected, drop it if its path excludes
it, and otherwise select it and fetch its manifest. -/
def turn (cat : Catalog) (scopes : ScopeSet) (q : Queue) : Turn :=
  match q.waiting with
  | [] =>
    .ends (if q.failures = [] then .ok ⟨q.entries, q.conflicts⟩
      else .error (.unresolved q.failures ⟨q.entries, q.conflicts⟩))
  | p :: ps =>
    match q.entries.find? fun e => e.coordinate.identity = p.coordinate.identity with
    | some e =>
      .goes { q with
        waiting := ps
        conflicts := Conflict.record e.coordinate e.depth
          ⟨p.coordinate.version, p.depth, p.parent⟩ q.conflicts }
    | none =>
      if p.coordinate.artifactKey ∈ p.inherited then .goes { q with waiting := ps }
      else fetch cat scopes p
        { q with
          waiting := ps
          entries := q.entries ++ [⟨p.coordinate, p.depth, p.kind, p.parent⟩] }

/-- So many turns; none if the run has not ended by then. -/
def run (cat : Catalog) (scopes : ScopeSet) : Nat → Queue → Option (Except ResolveError Resolution)
  | 0, _ => none
  | n + 1, q =>
    match q.turn cat scopes with
    | .ends o => some o
    | .goes q => run cat scopes n q

variable {cat : Catalog} {scopes : ScopeSet}

/-- A run that has ended stays as it is. -/
theorem run_add {n : Nat} {q : Queue} {o : Except ResolveError Resolution}
    (h : run cat scopes n q = some o) (k : Nat) : run cat scopes (n + k) q = some o := by
  induction n generalizing q with
  | zero => simp [run] at h
  | succ n ih =>
    rw [Nat.succ_add]
    unfold run at h ⊢
    cases ht : q.turn cat scopes with
    | ends o' => simpa [ht] using h
    | goes q' =>
      simp only [ht] at h ⊢
      exact ih h

theorem run_unique {m n : Nat} {q : Queue} {o o' : Except ResolveError Resolution}
    (h : run cat scopes m q = some o) (h' : run cat scopes n q = some o') : o = o' := by
  have hm := run_add h n
  have hn := run_add h' m
  rw [Nat.add_comm, hn] at hm
  exact (Option.some.inj hm).symm

/-- The queue between two packages of a level: the rest of the level waits in front of what
the packages before have brought in. -/
def of (waiting : List Pending) (r : Resolution) (failures : List BranchFailure) : Queue :=
  ⟨waiting, r.entries, r.conflicts, failures⟩

/-- What is put at the back is what the manifest brings in. -/
theorem fetch_ok {p : Pending} {m : Manifest} (h : cat.fetch p.coordinate = .ok m)
    (waiting : List Pending) (r : Resolution) (failures : List BranchFailure) :
    fetch cat scopes p (of waiting r failures) =
      .goes (of (waiting ++ p.children scopes m) r failures) := by
  simp only [fetch, h]
  rfl

theorem fetch_error {p : Pending} {e : FetchError} (h : cat.fetch p.coordinate = .error e)
    (answers : e.outage? = none) (waiting : List Pending) (r : Resolution)
    (failures : List BranchFailure) :
    fetch cat scopes p (of waiting r failures) =
      .goes (of waiting r (failures ++ [⟨p.coordinate, e⟩])) := by
  simp only [fetch, h, answers]
  rfl

/-- Meeting a package admits it or nothing. -/
theorem admitted_of_meet (r : Resolution) (p : Pending) : (r.meet p).2 = [] ∨ (r.meet p).2 = [p] := by
  unfold Resolution.meet
  split
  · exact .inl rfl
  · split
    · exact .inl rfl
    · exact .inr rfl

/-- A turn meets the first package, and fetches if that admitted it. -/
theorem turn_of_cons (p : Pending) (ps : List Pending) (r : Resolution)
    (failures : List BranchFailure) :
    (of (p :: ps) r failures).turn cat scopes =
      if (r.meet p).2 = [] then .goes (of ps (r.meet p).1 failures)
      else fetch cat scopes p (of ps (r.meet p).1 failures) := by
  cases he : r.get? p.identity with
  | some e =>
    have hf : r.entries.find? (fun e => e.coordinate.identity = p.coordinate.identity) = some e := he
    simp [turn, of, hf, Resolution.meet, he, Pending.omission]
  | none =>
    have hf : r.entries.find? (fun e => e.coordinate.identity = p.coordinate.identity) = none := he
    by_cases hx : p.coordinate.artifactKey ∈ p.inherited
    · simp [turn, of, hf, Resolution.meet, he, Pending.excluded, hx]
    · simp [turn, of, hf, Resolution.meet, he, Pending.excluded, hx, Pending.entry]

/-- A level at the front of the queue is used up in as many turns as it has packages. What
waited behind it is then in front of what it has brought in. -/
theorem run_level (cat : Catalog) (scopes : ScopeSet) (level back : List Pending)
    (r : Resolution) (failures : List BranchFailure) (k : Nat) :
    run cat scopes (level.length + k) (of (level ++ back) r failures) =
      match expand cat scopes (r.meetAll level).2 with
      | .error (c, reason) => some (.error (.storeUnavailable c reason))
      | .ok x =>
        run cat scopes k (of (back ++ x.next) (r.meetAll level).1 (failures ++ x.failures)) := by
  induction level generalizing back r failures with
  | nil => simp [expand]
  | cons p ps ih =>
    rw [List.length_cons, Nat.succ_add, List.cons_append, run, turn_of_cons,
      Resolution.meetAll_cons]
    rcases admitted_of_meet r p with hm | hm
    · simpa [hm] using ih back (r.meet p).1 failures
    · simp only [hm, List.cons_ne_nil, if_false, List.singleton_append]
      cases hf : cat.fetch p.coordinate with
      | ok m =>
        have h := ih (back ++ p.children scopes m) (r.meet p).1 failures
        rw [fetch_ok hf]
        simp only [expand, hf, List.append_assoc]
        cases hx : expand cat scopes ((r.meet p).1.meetAll ps).2 <;>
          simpa [hx, Except.map] using h
      | error e =>
        cases ho : e.outage? with
        | some reason => simp [fetch, hf, ho, expand]
        | none =>
          have h := ih back (r.meet p).1 (failures ++ [⟨p.coordinate, e⟩])
          rw [fetch_error hf ho]
          simp only [expand, hf, ho]
          cases hx : expand cat scopes ((r.meet p).1.meetAll ps).2 <;>
            simpa [hx, Except.map] using h

/-- From the beginning of any level on, the queue ends, and with the outcome of the levels. -/
theorem run_levels (roots : List Coordinate) (r : Resolution) (failures : List BranchFailure)
    (level : List Pending) (reach : ∀ p ∈ level, cat.Reaches roots p.identity) :
    ∃ n, run cat scopes n (of level r failures) =
      some (runLevels cat scopes roots r failures level reach).outcome := by
  fun_induction runLevels cat scopes roots r failures level reach with
  | case1 r failures =>
    refine ⟨1, ?_⟩
    by_cases hf : failures = [] <;> simp [run, turn, of, Resolution.outcome, hf]
  | case2 r failures p ps reach met fetched c reason hx =>
    refine ⟨(p :: ps).length + 0, ?_⟩
    have h := run_level cat scopes (p :: ps) [] r failures 0
    rw [List.append_nil, hx] at h
    exact h
  | case3 r failures p ps reach met fetched x hx _ ih =>
    obtain ⟨n, hn⟩ := ih
    refine ⟨(p :: ps).length + n, ?_⟩
    have h := run_level cat scopes (p :: ps) [] r failures n
    rw [List.append_nil, hx] at h
    exact h.trans hn

/-- A queue over roots ends, and with the outcome of the levels. -/
theorem exists_run (cat : Catalog) (scopes : ScopeSet) {roots : List Coordinate}
    (named : roots ≠ []) :
    ∃ n, run cat scopes n (start roots) = some (resolve cat scopes roots).outcome := by
  unfold resolve
  rw [if_neg (by simpa using named)]
  exact run_levels roots .empty [] _ _

/-- So the outcome of the levels can be had by taking turns. -/
theorem outcome_of_run {roots : List Coordinate} (named : roots ≠ []) {n : Nat}
    {o : Except ResolveError Resolution} (h : run cat scopes n (start roots) = some o) :
    (resolve cat scopes roots).outcome = o := by
  obtain ⟨m, hm⟩ := exists_run cat scopes named
  exact run_unique hm h

end Queue

theorem Sample.run_queue : Queue.run catalog .runtimeSet 8 (Queue.start [app]) =
    some (.ok resolution) := rfl

theorem Sample.outcome : (resolve catalog .runtimeSet [app]).outcome = .ok resolution :=
  Queue.outcome_of_run (by simp) run_queue

theorem Sample.reached : (resolve catalog .runtimeSet [app]).Reached resolution := .inl outcome

/-- The levels give exactly what one queue gives: the queue comes to an end, and whatever it
ends with is the outcome of the levels, whether the entries, conflicts and failures in their
order, or the coordinate at which the store stopped answering. -/
theorem resolve_eq_queue (cat : Catalog) (scopes : ScopeSet) {roots : List Coordinate}
    (named : roots ≠ []) (o : Except ResolveError Resolution) :
    (∃ n, Queue.run cat scopes n (Queue.start roots) = some o) ↔
      (resolve cat scopes roots).outcome = o := by
  constructor
  · rintro ⟨n, hn⟩
    exact Queue.outcome_of_run named hn
  · rintro rfl
    exact Queue.exists_run cat scopes named

theorem resolve_eq_queue_sample :
    [Sample.app] ≠ [] ∧
      ((∃ n, Queue.run Sample.catalog .runtimeSet n (Queue.start [Sample.app]) =
          some (.ok Sample.resolution)) ↔
        (resolve Sample.catalog .runtimeSet [Sample.app]).outcome = .ok Sample.resolution) ∧
      Queue.run Sample.catalog .runtimeSet 8 (Queue.start [Sample.app]) =
        some (.ok Sample.resolution) := by
  have named : [Sample.app] ≠ [] := by simp
  exact ⟨named, resolve_eq_queue Sample.catalog .runtimeSet named _, Sample.run_queue⟩

end Depot
