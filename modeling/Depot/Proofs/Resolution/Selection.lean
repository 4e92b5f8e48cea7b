import Depot.Proofs.Resolution.Trace

/-!
# Which packages are admitted

Of the packages that are met, those are admitted that the path to them does not exclude and
that are the first of their identity among such. Together with the order of the trace, in which
depths never decrease, this says for every admitted package where it came from.
-/

namespace Depot

section Firsts

variable {α β : Type} [DecidableEq β]

/-- The first of all values that share a key, in order. -/
def firstsBy (key : α → β) : List α → List α
  | [] => []
  | a :: as => a :: (firstsBy key as).filter fun b => key b ≠ key a

theorem firstsBy_sublist (key : α → β) (as : List α) : (firstsBy key as).Sublist as := by
  induction as with
  | nil => exact .slnil
  | cons a as ih => exact (List.filter_sublist.trans ih).cons_cons a

theorem nodup_keys_firstsBy (key : α → β) (as : List α) : ((firstsBy key as).map key).Nodup := by
  induction as with
  | nil => exact List.nodup_nil
  | cons a as ih =>
    rw [firstsBy, List.map_cons, List.nodup_cons]
    constructor
    · intro h
      obtain ⟨b, hb, hk⟩ := List.mem_map.mp h
      have := (List.mem_filter.mp hb).2
      simp [hk] at this
    · exact ih.sublist (List.filter_sublist.map key)

/-- Nothing before a first value shares its key. -/
theorem exists_of_mem_firstsBy {key : α → β} {a : α} {as : List α} (h : a ∈ firstsBy key as) :
    ∃ before after, as = before ++ a :: after ∧ ∀ b ∈ before, key b ≠ key a := by
  induction as with
  | nil => simp [firstsBy] at h
  | cons c as ih =>
    rcases List.mem_cons.mp h with rfl | h
    · exact ⟨[], as, rfl, by simp⟩
    · obtain ⟨h, hc⟩ := List.mem_filter.mp h
      obtain ⟨before, after, rfl, hb⟩ := ih h
      refine ⟨c :: before, after, rfl, fun b hm => ?_⟩
      rcases List.mem_cons.mp hm with rfl | hm
      · have : key a ≠ key b := by simpa using hc
        exact this.symm
      · exact hb b hm

/-- Every value is represented by a first one, which comes no later in the order of the list. -/
theorem exists_firstsBy {key : α → β} {r : α → α → Prop} (refl : ∀ a, r a a) {as : List α}
    (ordered : as.Pairwise r) {x : α} (hx : x ∈ as) :
    ∃ a ∈ firstsBy key as, key a = key x ∧ r a x := by
  induction as with
  | nil => simp at hx
  | cons c as ih =>
    have hc := List.pairwise_cons.mp ordered
    by_cases hk : key x = key c
    · refine ⟨c, List.mem_cons_self, hk.symm, ?_⟩
      rcases List.mem_cons.mp hx with rfl | hx
      · exact refl x
      · exact hc.1 x hx
    · rcases List.mem_cons.mp hx with rfl | hx
      · exact absurd rfl hk
      · obtain ⟨a, ha, hax, hr⟩ := ih hc.2 hx
        refine ⟨a, List.mem_cons_of_mem c (List.mem_filter.mpr ⟨ha, ?_⟩), hax, hr⟩
        simpa [hax] using hk

theorem firstsBy_append (key : α → β) (as bs : List α) :
    firstsBy key (as ++ bs) =
      firstsBy key as ++ (firstsBy key bs).filter fun b => key b ∉ as.map key := by
  induction as with
  | nil => simp [firstsBy]
  | cons a as ih =>
    simp only [List.cons_append, firstsBy, ih, List.filter_append, List.filter_filter]
    congr 2
    refine List.filter_congr fun b _ => ?_
    simp [Bool.decide_and]

theorem firstsBy_map {γ : Type} (f : γ → α) (key : α → β) (cs : List γ) :
    firstsBy key (cs.map f) = (firstsBy (fun c => key (f c)) cs).map f := by
  induction cs with
  | nil => rfl
  | cons c cs ih =>
    simp only [List.map_cons, firstsBy, ih, List.filter_map]
    rfl

/-- Values equal to one whose key is taken already can be left out beforehand. -/
theorem filter_firstsBy_filter_ne [DecidableEq α] (key : α → β) (a : α) (bs : List α) :
    (firstsBy key (bs.filter (· ≠ a))).filter (fun b => key b ≠ key a) =
      (firstsBy key bs).filter fun b => key b ≠ key a := by
  induction bs with
  | nil => rfl
  | cons b bs ih =>
    rw [List.filter_cons, firstsBy, List.filter_cons, List.filter_comm]
    by_cases hb : b = a
    · subst hb
      simpa using ih
    · rw [if_pos (by simpa using hb), firstsBy, List.filter_cons, List.filter_comm, ih]

/-- Dropping repetitions first makes no difference. -/
theorem firstsBy_firsts [DecidableEq α] (key : α → β) (as : List α) :
    firstsBy key (firsts as) = firstsBy key as := by
  induction as with
  | nil => rfl
  | cons a as ih => rw [firsts, firstsBy, filter_firstsBy_filter_ne, ih, firstsBy]

end Firsts

namespace Resolution

/-- Meeting a package admits it if nothing of its identity is selected and its path does not
exclude it, and admits nothing otherwise. -/
theorem admitted_meet (r : Resolution) (p : Pending) :
    (r.meet p).2 = if (r.get? p.identity).isNone && !p.excluded then [p] else [] := by
  unfold meet
  cases r.get? p.identity with
  | some e => rfl
  | none => cases p.excluded <;> rfl

theorem isNone_get?_meet (r : Resolution) (p : Pending) (i : Identity) :
    ((r.meet p).1.get? i).isNone =
      ((r.get? i).isNone && decide (∀ q ∈ (r.meet p).2, q.identity ≠ i)) := by
  rw [Bool.eq_iff_iff, Bool.and_eq_true, decide_eq_true_iff]
  simp only [Option.isNone_iff_eq_none, get?_eq_none_iff, entries_meet, List.mem_append,
    List.mem_map]
  constructor
  · intro h
    exact ⟨fun e he => h e (.inl he), fun q hq => h q.entry (.inr ⟨q, hq, rfl⟩)⟩
  · rintro ⟨h, h'⟩ e (he | ⟨q, hq, rfl⟩)
    · exact h e he
    · exact h' q hq

/-- Once a package is met that its path does not exclude, its identity is selected. -/
theorem isNone_get?_meet_of_open (r : Resolution) {p : Pending} (hx : p.excluded = false)
    (i : Identity) :
    ((r.meet p).1.get? i).isNone = ((r.get? i).isNone && decide (i ≠ p.identity)) := by
  rw [isNone_get?_meet, admitted_meet, hx]
  by_cases hi : i = p.identity
  · subst hi
    cases r.get? p.identity <;> simp
  · cases r.get? p.identity <;> simp [hi, Ne.symm hi]

/-- Admission in closed form. -/
theorem admitted_meetAll (r : Resolution) (ps : List Pending) :
    (r.meetAll ps).2 =
      (firstsBy Pending.identity (ps.filter fun p => !p.excluded)).filter fun p =>
        (r.get? p.identity).isNone := by
  induction ps generalizing r with
  | nil => rfl
  | cons p ps ih =>
    rw [meetAll_cons, ih, admitted_meet]
    cases hx : p.excluded with
    | true => simp [hx, isNone_get?_meet, admitted_meet]
    | false =>
      have later := fun q : Pending => isNone_get?_meet_of_open r hx q.identity
      cases hg : r.get? p.identity <;> simp [hx, hg, later, firstsBy, List.filter_filter]

end Resolution

theorem admitted_eq (items : List Pending) :
    admitted items = firstsBy Pending.identity (items.filter fun p => !p.excluded) := by
  rw [admitted, Resolution.admitted_meetAll]
  simp [Resolution.get?, Resolution.empty]

variable {cat : Catalog} {scopes : ScopeSet}

theorem mem_offspring {p q : Pending} :
    q ∈ offspring cat scopes p ↔ ∃ m, cat.fetch p.coordinate = .ok m ∧
      ∃ d ∈ m.dependencies, d.scope ∈ scopes ∧ p.child d = q := by
  unfold offspring
  cases cat.fetch p.coordinate <;> simp [Pending.children, and_assoc]

theorem depth_of_mem_offspring {p q : Pending} (h : q ∈ offspring cat scopes p) :
    q.depth = p.depth + 1 := by
  obtain ⟨m, hm, d, hd, hs, rfl⟩ := mem_offspring.mp h
  rfl

/-- All packages of one distance are met before any package further away. -/
theorem Trace.pairwise_depth {r : Resolution} {level items : List Pending}
    (h : Trace cat scopes r level items) {n : Nat} (flat : ∀ p ∈ level, p.depth = n) :
    items.Pairwise (fun a b => a.depth ≤ b.depth) ∧ ∀ p ∈ items, n ≤ p.depth := by
  induction h generalizing n with
  | nil r => simp
  | @level r p ps rest later ih =>
    have next : ∀ q ∈ (r.meetAll (p :: ps)).2.flatMap (offspring cat scopes), q.depth = n + 1 := by
      intro q hq
      obtain ⟨a, ha, hq⟩ := List.mem_flatMap.mp hq
      rw [depth_of_mem_offspring hq, flat a (Resolution.mem_of_mem_meetAll ha)]
    obtain ⟨ordered, deeper⟩ := ih next
    constructor
    · refine List.pairwise_append.mpr ⟨?_, ordered, fun a ha b hb => ?_⟩
      · exact List.pairwise_of_forall_mem_list fun a ha b hb =>
          Nat.le_of_eq ((flat a ha).trans (flat b hb).symm)
      · have := deeper b hb
        rw [flat a ha]
        omega
    · intro q hq
      rcases List.mem_append.mp hq with hq | hq
      · exact Nat.le_of_eq (flat q hq).symm
      · have := deeper q hq
        omega

namespace Explored

variable {roots : List Coordinate} {items : List Pending}

theorem pairwise_depth (h : Explored cat scopes roots items) :
    items.Pairwise fun a b => a.depth ≤ b.depth := by
  refine (h.trace.pairwise_depth (n := 0) fun p hp => ?_).1
  obtain ⟨c, hc, rfl⟩ := List.mem_map.mp hp
  rfl

theorem admitted_sublist (items : List Pending) : (admitted items).Sublist items := by
  rw [admitted_eq]
  exact (firstsBy_sublist _ _).trans List.filter_sublist

theorem nodup_identities (items : List Pending) :
    ((admitted items).map Pending.identity).Nodup := by
  rw [admitted_eq]
  exact nodup_keys_firstsBy _ _

/-- Whatever is met and not excluded is represented by an admitted package that is no further
away. -/
theorem exists_admitted (h : Explored cat scopes roots items) {p : Pending} (hp : p ∈ items)
    (unbarred : p.excluded = false) :
    ∃ q ∈ admitted items, q.identity = p.identity ∧ q.depth ≤ p.depth := by
  rw [admitted_eq]
  exact exists_firstsBy (fun a => Nat.le_refl a.depth) (h.pairwise_depth.filter _)
    (List.mem_filter.mpr ⟨hp, by simp [unbarred]⟩)

/-- Nothing of its identity that is met before an admitted package could have been admitted. -/
theorem exists_of_mem_admitted {p : Pending} (hp : p ∈ admitted items) :
    ∃ before after, items = before ++ p :: after ∧ p.excluded = false ∧
      ∀ q ∈ before, q.excluded = false → q.identity ≠ p.identity := by
  rw [admitted_eq] at hp
  obtain ⟨kept, rest, hk, first⟩ := exists_of_mem_firstsBy hp
  obtain ⟨front, back, rfl, rfl, hb⟩ := List.filter_eq_append_iff.mp hk
  obtain ⟨gap, after, rfl, barred, unbarred, rfl⟩ := List.filter_eq_cons_iff.mp hb
  refine ⟨front ++ gap, after, by simp, by simpa using unbarred, fun q hq hx => ?_⟩
  rcases List.mem_append.mp hq with hq | hq
  · exact first q (List.mem_filter.mpr ⟨hq, by simp [hx]⟩)
  · have := barred q hq
    simp [hx] at this

end Explored

end Depot
