import Depot.Proofs.Resolution.RootOrder

/-!
# What the conflicts report

Whatever is met after its identity was selected in another version is noted, once, beside the entry
that it has lost to. So the conflicts of a resolution can be read off its entries and their
manifests: every omission is a root or a declaration that was followed, and every root and every
declaration that nothing excludes is an omission, if another version of it is selected.
-/

namespace Depot

variable {cat : Catalog} {scopes : ScopeSet}

namespace Conflict

/-- An omission is noted for an identity. -/
def Notes (log : List Conflict) (i : Identity) (o : Omission) : Prop :=
  ∃ c ∈ log, c.identity = i ∧ o ∈ c.omitted

variable {log : List Conflict} {selected : Coordinate} {depth : Nat} {o o' : Omission}
  {i : Identity} {c : Conflict}

theorem mem_omitted_note : o' ∈ (c.note o).omitted ↔ o' ∈ c.omitted ∨ o' = o := by
  unfold note
  by_cases known : o ∈ c.omitted
  · rw [if_pos known]
    exact ⟨.inl, fun h => h.elim id fun same => same ▸ known⟩
  · simp [known]

theorem nodup_omitted_note (once : c.omitted.Nodup) : (c.note o).omitted.Nodup := by
  unfold note
  split
  · exact once
  · rename_i new
    exact once.append (List.nodup_singleton o) (by simpa using new)

theorem note_selected (c : Conflict) (o : Omission) :
    (c.note o).selected = c.selected ∧ (c.note o).depth = c.depth := by
  unfold note
  split <;> exact ⟨rfl, rfl⟩

/-- A conflict after an omission was recorded is an old one, or it notes the omission: beside
others, or as the first of its identity. -/
theorem mem_record (h : c ∈ record selected depth o log) :
    c ∈ log ∨ (o.version ≠ selected.version ∧
      ((∃ d ∈ log, d.identity = selected.identity ∧ c = d.note o) ∨ c = ⟨selected, depth, [o]⟩)) := by
  unfold record at h
  split at h
  · exact .inl h
  · rename_i differs
    split at h
    · obtain ⟨d, hd, rfl⟩ := List.mem_map.mp h
      split
      · exact .inr ⟨differs, .inl ⟨d, hd, by assumption, rfl⟩⟩
      · exact .inl hd
    · rcases List.mem_append.mp h with h | h
      · exact .inl h
      · exact .inr ⟨differs, .inr (List.mem_singleton.mp h)⟩

/-- No identity gets a second conflict. -/
theorem nodup_identities_record (h : (log.map identity).Nodup) :
    ((record selected depth o log).map identity).Nodup := by
  unfold record
  split
  · exact h
  · split
    · rw [List.map_map]
      rwa [List.map_congr_left (g := identity)]
      intro c _
      by_cases here : c.identity = selected.identity <;> simp [here]
    · rename_i new
      rw [List.map_append]
      refine h.append (List.nodup_singleton _) fun i hi first => ?_
      obtain ⟨c, hc, rfl⟩ := List.mem_map.mp hi
      exact new (List.any_eq_true.mpr ⟨c, hc, decide_eq_true (List.mem_singleton.mp first)⟩)

/-- Recording notes the omission of another version, and nothing else. -/
theorem notes_record : Notes (record selected depth o log) i o' ↔
    Notes log i o' ∨ (o.version ≠ selected.version ∧ selected.identity = i ∧ o' = o) := by
  unfold record
  by_cases same : o.version = selected.version
  · simp [same]
  rw [if_neg same]
  by_cases known : log.any (fun c => decide (c.identity = selected.identity)) = true
  · rw [if_pos known]
    obtain ⟨d, hd, here⟩ := List.any_eq_true.mp known
    have here : d.identity = selected.identity := of_decide_eq_true here
    constructor
    · rintro ⟨c, hc, identity, noted⟩
      obtain ⟨b, hb, rfl⟩ := List.mem_map.mp hc
      split at identity
      · rename_i at_selected
        rw [if_pos at_selected] at noted
        rw [identity_note] at identity
        rcases mem_omitted_note.mp noted with noted | rfl
        · exact .inl ⟨b, hb, identity, noted⟩
        · exact .inr ⟨same, at_selected.symm.trans identity, rfl⟩
      · rename_i elsewhere
        rw [if_neg elsewhere] at noted
        exact .inl ⟨b, hb, identity, noted⟩
    · rintro (⟨b, hb, identity, noted⟩ | ⟨-, rfl, rfl⟩)
      · refine ⟨_, List.mem_map_of_mem hb, ?_⟩
        split
        · exact ⟨(identity_note o b).trans identity, mem_omitted_note.mpr (.inl noted)⟩
        · exact ⟨identity, noted⟩
      · refine ⟨_, List.mem_map_of_mem hd, ?_⟩
        rw [if_pos here]
        exact ⟨(identity_note o' d).trans here, mem_omitted_note.mpr (.inr rfl)⟩
  · rw [if_neg known]
    unfold Notes
    simp only [List.mem_append, List.mem_singleton, or_and_right, exists_or, exists_eq_left]
    exact or_congr_right ⟨fun first => ⟨same, first⟩, And.right⟩

end Conflict

namespace Resolution

variable {r : Resolution} {p : Pending} {ps : List Pending} {i : Identity} {e : Entry}
  {o : Omission}

/-- What is selected for an identity stays selected. -/
theorem get?_meet (found : r.get? i = some e) (p : Pending) : (r.meet p).1.get? i = some e := by
  unfold get? at found ⊢
  rw [entries_meet, List.find?_append, found, Option.some_or]

theorem get?_meetAll (found : r.get? i = some e) (ps : List Pending) :
    (r.meetAll ps).1.get? i = some e := by
  unfold get? at found ⊢
  rw [entries_meetAll, List.find?_append, found, Option.some_or]

/-- The conflicts are settled by the entries: each identity has one at most, with the entry of that
identity, and each omission is there once and is of another version. -/
structure Settled (r : Resolution) : Prop where
  distinct : (r.conflicts.map Conflict.identity).Nodup
  selected : ∀ c ∈ r.conflicts, ∃ e, r.get? c.identity = some e ∧ e.coordinate = c.selected ∧
    e.depth = c.depth
  once : ∀ c ∈ r.conflicts, c.omitted.Nodup
  differs : ∀ c ∈ r.conflicts, ∀ o ∈ c.omitted, o.version ≠ c.selected.version

theorem settled_empty : empty.Settled := by
  constructor <;> simp [empty]

/-- A resolution whose entries were only added to is settled by them as before. -/
theorem Settled.grow {s : Resolution} (h : r.Settled) (same : s.conflicts = r.conflicts)
    (grown : ∀ i e, r.get? i = some e → s.get? i = some e) : s.Settled := by
  constructor <;> rw [same]
  · exact h.distinct
  · intro c hc
    obtain ⟨e, found, coordinate, depth⟩ := h.selected c hc
    exact ⟨e, grown _ e found, coordinate, depth⟩
  · exact h.once
  · exact h.differs

/-- A package that was met lost to the entry of its identity. -/
theorem Settled.record (h : r.Settled) (found : r.get? i = some e) (o : Omission) :
    Settled { r with conflicts := Conflict.record e.coordinate e.depth o r.conflicts } := by
  have here : e.coordinate.identity = i := (mem_of_get? found).2
  constructor
  · exact Conflict.nodup_identities_record h.distinct
  · intro c hc
    rcases Conflict.mem_record hc with old | ⟨-, ⟨d, hd, -, rfl⟩ | rfl⟩
    · exact h.selected c old
    · obtain ⟨selected, depth⟩ := d.note_selected o
      rw [Conflict.identity_note, selected, depth]
      exact h.selected d hd
    · rw [← here] at found
      exact ⟨e, found, rfl, rfl⟩
  · intro c hc
    rcases Conflict.mem_record hc with old | ⟨-, ⟨d, hd, -, rfl⟩ | rfl⟩
    · exact h.once c old
    · exact Conflict.nodup_omitted_note (h.once d hd)
    · exact List.nodup_singleton o
  · intro c hc o' ho
    rcases Conflict.mem_record hc with old | ⟨differs, ⟨d, hd, at_selected, rfl⟩ | rfl⟩
    · exact h.differs c old o' ho
    · rw [(d.note_selected o).1]
      rcases Conflict.mem_omitted_note.mp ho with ho | rfl
      · exact h.differs d hd o' ho
      · -- one identity has one entry, and so one version that is selected
        obtain ⟨f, found', coordinate, -⟩ := h.selected d hd
        rw [at_selected, here, found] at found'
        cases found'
        rwa [← coordinate]
    · rwa [List.mem_singleton.mp ho]

theorem Settled.meet (h : r.Settled) (p : Pending) : (r.meet p).1.Settled := by
  cases found : r.get? p.identity with
  | some e =>
    have lost := h.record found p.omission
    simpa only [Resolution.meet, found] using lost
  | none =>
    refine h.grow ?_ fun i e known => get?_meet known p
    unfold Resolution.meet
    rw [found]
    cases p.excluded <;> rfl

theorem Settled.meetAll (h : r.Settled) (ps : List Pending) : (r.meetAll ps).1.Settled := by
  induction ps generalizing r with
  | nil => exact h
  | cons p ps ih => exact ih (h.meet p)

/-- Meeting a package notes it if another version of its identity is selected. -/
theorem notes_meet : Conflict.Notes (r.meet p).1.conflicts i o ↔
    Conflict.Notes r.conflicts i o ∨ (p.identity = i ∧ p.omission = o ∧
      ∃ e, r.get? i = some e ∧ e.coordinate.version ≠ p.coordinate.version) := by
  unfold meet
  cases found : r.get? p.identity with
  | none =>
    have unmoved : ¬ (p.identity = i ∧ p.omission = o ∧
        ∃ e, r.get? i = some e ∧ e.coordinate.version ≠ p.coordinate.version) := by
      rintro ⟨rfl, -, e, known, -⟩
      cases found.symm.trans known
    cases p.excluded <;> simp [unmoved]
  | some e =>
    rw [Conflict.notes_record]
    refine or_congr_right ?_
    have here : e.coordinate.identity = p.identity := (mem_of_get? found).2
    constructor
    · rintro ⟨differs, identity, rfl⟩
      have same : p.identity = i := here.symm.trans identity
      exact ⟨same, rfl, e, same ▸ found, Ne.symm differs⟩
    · rintro ⟨rfl, rfl, f, known, differs⟩
      cases found.symm.trans known
      exact ⟨Ne.symm differs, here, rfl⟩

/-- What meeting packages notes: each of them for which another version was selected before. -/
theorem notes_meetAll : Conflict.Notes (r.meetAll ps).1.conflicts i o ↔
    Conflict.Notes r.conflicts i o ∨ ∃ before p after, ps = before ++ p :: after ∧
      p.identity = i ∧ p.omission = o ∧
      ∃ e, (r.meetAll before).1.get? i = some e ∧ e.coordinate.version ≠ p.coordinate.version := by
  induction ps generalizing r with
  | nil => simp
  | cons q ps ih =>
    rw [meetAll_cons, ih, notes_meet, or_assoc]
    refine or_congr_right ⟨?_, ?_⟩
    · rintro (⟨identity, omission, lost⟩ | ⟨before, p, after, rfl, identity, omission, lost⟩)
      · exact ⟨[], q, ps, rfl, identity, omission, lost⟩
      · exact ⟨q :: before, p, after, rfl, identity, omission, lost⟩
    · rintro ⟨before, p, after, split, identity, omission, lost⟩
      cases before with
      | nil =>
        cases split
        exact .inl ⟨identity, omission, lost⟩
      | cons b before =>
        cases split
        exact .inr ⟨before, p, after, rfl, identity, omission, lost⟩

/-- Who asks for a version of an identity: a root, or an entry that declares it in a scope that is
followed. -/
inductive Asked (cat : Catalog) (scopes : ScopeSet) (roots : List Coordinate) (r : Resolution)
    (i : Identity) : Omission → Prop where
  | root {c : Coordinate} (named : c ∈ roots) (identity : c.identity = i) :
      Asked cat scopes roots r i ⟨c.version, 0, none⟩
  | declared {p : Entry} {m : Manifest} {d : Dependency} (entry : p ∈ r.entries)
      (fetched : cat.fetch p.coordinate = .ok m) (listed : d ∈ m.dependencies)
      (followed : d.scope ∈ scopes) (identity : d.coordinate.identity = i) :
      Asked cat scopes roots r i ⟨d.coordinate.version, p.depth + 1, some p.coordinate⟩

/-- The conflicts report what has lost to an entry, all of it and nothing else. -/
structure Reported (cat : Catalog) (scopes : ScopeSet) (roots : List Coordinate)
    (r : Resolution) : Prop extends r.Settled where
  asked : ∀ c ∈ r.conflicts, ∀ o ∈ c.omitted, c.depth ≤ o.depth ∧
    Asked cat scopes roots r c.identity o
  rooted : ∀ c ∈ roots, ∀ e ∈ r.entries, e.identity = c.identity →
    e.coordinate.version ≠ c.version → Conflict.Notes r.conflicts c.identity ⟨c.version, 0, none⟩
  declared : ∀ p ∈ r.entries, ∀ m, cat.fetch p.coordinate = .ok m →
    ∀ d ∈ m.dependencies, d.scope ∈ scopes →
      d.coordinate.artifactKey ∉ r.below cat scopes p →
      ∀ e ∈ r.entries, e.identity = d.coordinate.identity →
        e.coordinate.version ≠ d.coordinate.version →
        Conflict.Notes r.conflicts d.coordinate.identity
          ⟨d.coordinate.version, p.depth + 1, some p.coordinate⟩

end Resolution

theorem met_append (items later : List Pending) :
    met (items ++ later) = ((met items).meetAll later).1 := by
  unfold met
  rw [Resolution.meetAll_append]

theorem settled_met (items : List Pending) : (met items).Settled :=
  Resolution.settled_empty.meetAll items

theorem notes_met {items : List Pending} {i : Identity} {o : Omission} :
    Conflict.Notes (met items).conflicts i o ↔ ∃ before p after, items = before ++ p :: after ∧
      p.identity = i ∧ p.omission = o ∧
      ∃ e, (met before).get? i = some e ∧ e.coordinate.version ≠ p.coordinate.version := by
  have none : ¬ Conflict.Notes Resolution.empty.conflicts i o := by
    rintro ⟨c, hc, -⟩
    cases hc
  exact Resolution.notes_meetAll.trans (or_iff_right none)

namespace Explored

variable {roots : List Coordinate} {items : List Pending}

/-- Whatever is met is asked for. -/
theorem asked (h : Explored cat scopes roots items) {p : Pending} (hp : p ∈ items) :
    Resolution.Asked cat scopes roots (met items) p.identity p.omission := by
  rw [h.eq_append] at hp
  rcases List.mem_append.mp hp with hp | hp
  · obtain ⟨c, hc, rfl⟩ := List.mem_map.mp hp
    exact .root (mem_firsts.mp hc) rfl
  · obtain ⟨q, hq, hp⟩ := List.mem_flatMap.mp hp
    obtain ⟨m, fetched, d, listed, followed, rfl⟩ := mem_offspring.mp hp
    have entry : q.entry ∈ (met items).entries := by
      rw [entries_met]
      exact List.mem_map_of_mem hq
    exact .declared entry fetched listed followed rfl

/-- What was selected before a package is met is no further away. -/
theorem depth_le (h : Explored cat scopes roots items) {before after : List Pending} {p : Pending}
    (split : items = before ++ p :: after) {i : Identity} {e : Entry}
    (found : (met before).get? i = some e) : e.depth ≤ p.depth := by
  have he := (Resolution.mem_of_get? found).1
  rw [entries_met] at he
  obtain ⟨q, hq, rfl⟩ := List.mem_map.mp he
  have ordered := split ▸ h.pairwise_depth
  exact (List.pairwise_append.mp ordered).2.2 q ((admitted_sublist before).subset hq) p
    List.mem_cons_self

/-- What is met without being excluded is noted if another version is selected. It cannot have been
met before that version, for then it would be the one that is selected. -/
theorem notes_of_mem {p : Pending} (hp : p ∈ items) (unbarred : p.excluded = false) {e : Entry}
    (he : e ∈ (met items).entries) (identity : e.identity = p.identity)
    (differs : e.coordinate.version ≠ p.coordinate.version) :
    Conflict.Notes (met items).conflicts p.identity p.omission := by
  obtain ⟨before, after, rfl⟩ := List.append_of_mem hp
  have selected : ∀ f, (met (before ++ p :: after)).get? p.identity = some f → f = e := by
    intro f found
    obtain ⟨hf, same⟩ := Resolution.mem_of_get? found
    rw [entries_met] at hf he
    obtain ⟨a, ha, rfl⟩ := List.mem_map.mp hf
    obtain ⟨b, hb, rfl⟩ := List.mem_map.mp he
    rw [eq_of_identity ha hb (same.trans identity.symm)]
  rw [met_append] at selected
  cases found : (met before).get? p.identity with
  | some f =>
    have same := selected f (Resolution.get?_meetAll found _)
    exact notes_met.mpr ⟨before, p, after, rfl, rfl, rfl, f, found, same ▸ differs⟩
  | none =>
    have now : ((met before).meet p).1.get? p.identity = some p.entry := by
      simp only [Resolution.meet, found, unbarred, Bool.false_eq_true, if_false]
      rw [Resolution.get?, List.find?_append, ← Resolution.get?, found, Option.none_or]
      simp [Pending.entry, Entry.identity, Pending.identity]
    have same := selected p.entry (Resolution.get?_meetAll now after)
    exact absurd (congrArg (·.coordinate.version) same).symm differs

theorem reported (h : Explored cat scopes roots items) :
    (met items).Reported cat scopes roots := by
  have settled := settled_met items
  refine ⟨settled, ?_, ?_, ?_⟩
  · intro c hc o ho
    obtain ⟨before, p, after, split, identity, omission, e, found, -⟩ :=
      notes_met.mp ⟨c, hc, rfl, ho⟩
    subst omission
    constructor
    · obtain ⟨f, found', -, depth⟩ := settled.selected c hc
      have later : (met items).get? c.identity = some e := by
        rw [split, met_append]
        exact Resolution.get?_meetAll found (p :: after)
      cases later.symm.trans found'
      rw [← depth]
      exact h.depth_le split found
    · rw [← identity]
      exact h.asked (by simp [split])
  · intro c hc e he identity differs
    have unbarred : (Pending.root c).excluded = false := decide_eq_false OrderedSet.not_mem_empty
    exact notes_of_mem (h.root_mem hc) unbarred he identity differs
  · intro p hp m hm d hd hs allowed e he identity differs
    rw [entries_met] at hp
    obtain ⟨q, hq, rfl⟩ := List.mem_map.mp hp
    rw [h.below_entry hq] at allowed
    exact notes_of_mem (h.child_mem hq hm hd hs) (decide_eq_false allowed) he identity differs

end Explored

/-- Whatever a resolution left behind, its conflicts are exact: one for each identity, with the
entry that was selected, noting once each what was asked for in another version. -/
theorem reported_of_reached (cat : Catalog) (scopes : ScopeSet) (roots : List Coordinate)
    {r : Resolution} (h : (resolve cat scopes roots).Reached r) :
    r.Reported cat scopes roots := by
  obtain ⟨-, items, explored, rfl⟩ := exists_explored h
  exact explored.reported

/-- `lib` asks for versions of `core` and `app` that are not taken. -/
theorem reported_of_reached_sample :
    (resolve Sample.catalog .runtimeSet [Sample.app]).Reached Sample.resolution ∧
      Sample.resolution.Reported Sample.catalog .runtimeSet [Sample.app] ∧
      Conflict.Notes Sample.resolution.conflicts Sample.core.identity ⟨"2", 2, some Sample.lib⟩ :=
  ⟨Sample.reached, reported_of_reached _ _ _ Sample.reached, _, List.mem_cons_self, rfl,
    List.mem_singleton_self _⟩

end Depot
