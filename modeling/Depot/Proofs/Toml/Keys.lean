import Mathlib.Data.List.Basic
import Depot.Toml.Document
import Depot.Toml.Settled

/-!
# Keys of tables

No table of a document has a key twice, at whatever depth it lies and whoever opened it. When a
document is settled and its entries are sorted, the keys of every table increase.
-/

namespace Depot.Toml

/-- All tables in a value have their keys in an order. -/
inductive Value.Keyed (R : String → String → Prop) : Value → Prop where
  | string (s : String) : Keyed R (.string s)
  | integer (i : Int) : Keyed R (.integer i)
  | float (x : Binary64) : Keyed R (.float x)
  | boolean (b : Bool) : Keyed R (.boolean b)
  | dateTime (t : DateTime) : Keyed R (.dateTime t)
  | array {vs : List Value} (elements : ∀ v ∈ vs, Keyed R v) : Keyed R (.array vs)
  | table {es : List (String × Value)} (keys : (es.map Prod.fst).Pairwise R)
    (values : ∀ e ∈ es, Keyed R e.2) : Keyed R (.table es)

/-- No table has a key twice. -/
abbrev Value.Distinct : Value → Prop := Value.Keyed (· ≠ ·)

/-- The keys of each table increase. -/
abbrev Value.Ordered : Value → Prop := Value.Keyed (· < ·)

namespace Value

variable {R : String → String → Prop} {es : List (String × Value)} {vs : List Value}

theorem keyed_table :
    (table es).Keyed R ↔ (es.map Prod.fst).Pairwise R ∧ ∀ e ∈ es, e.2.Keyed R :=
  ⟨fun h => by cases h with | table keys values => exact ⟨keys, values⟩,
    fun ⟨keys, values⟩ => .table keys values⟩

theorem keyed_array : (array vs).Keyed R ↔ ∀ v ∈ vs, v.Keyed R :=
  ⟨fun h => by cases h with | array elements => exact elements, .array⟩

end Value

/-! ### Tables under construction -/

namespace Entries

/-- Entries of which a table without repeated keys can be made. -/
structure Distinct (es : Entries) : Prop where
  keys : (es.map Prod.fst).Nodup
  values : ∀ e ∈ es, e.2.finish.Distinct

theorem distinct_nil : Distinct [] := ⟨.nil, nofun⟩

/-- A change that repeats no key. -/
def Keeps (f : Entries → Option Entries) : Prop :=
  ∀ es es', f es = some es' → Distinct es → Distinct es'

variable {es : Entries} {k : String} {d : Draft} {f : Entries → Option Entries}

/-- Entries are finished one by one. -/
theorem finishEntries_eq_map (es : Entries) :
    finishEntries es = es.map fun e => (e.1, e.2.finish) := by
  induction es with
  | nil => rfl
  | cons e es ih => exact congrArg ((e.1, e.2.finish) :: ·) ih

theorem finishTables_eq_map (ts : List Entries) :
    finishTables ts = ts.map fun es => .table (finishEntries es) := by
  induction ts with
  | nil => rfl
  | cons es ts ih => exact congrArg (.table (finishEntries es) :: ·) ih

theorem distinct_table : (Value.table (finishEntries es)).Distinct ↔ Distinct es := by
  have keys : (es.map fun e => (e.1, e.2.finish)).map Prod.fst = es.map Prod.fst := by
    rw [List.map_map]
    rfl
  rw [finishEntries_eq_map, Value.Distinct, Value.keyed_table, keys, List.forall_mem_map]
  exact ⟨fun ⟨keys, values⟩ => ⟨keys, values⟩, fun ⟨keys, values⟩ => ⟨keys, values⟩⟩

theorem distinct_tables {ts : List Entries} :
    (Draft.tables ts).finish.Distinct ↔ ∀ es ∈ ts, Distinct es := by
  have finished : (Draft.tables ts).finish = .array (finishTables ts) := rfl
  rw [finished, finishTables_eq_map, Value.Distinct, Value.keyed_array, List.forall_mem_map]
  exact forall₂_congr fun _ _ => distinct_table

namespace Distinct

theorem of_lookup (h : Distinct es) (found : es.lookup k = some d) : d.finish.Distinct := by
  obtain ⟨earlier, later, rfl, -⟩ := List.lookup_eq_some_iff.mp found
  exact h.values (k, d) (by simp)

theorem concat (h : Distinct es) (new : ∀ e ∈ es, e.1 ≠ k) (value : d.finish.Distinct) :
    Distinct (es ++ [(k, d)]) := by
  constructor
  · rw [List.map_append, List.nodup_append]
    refine ⟨h.keys, List.pairwise_singleton _ k, fun a ha b hb => ?_⟩
    obtain ⟨e, he, rfl⟩ := List.mem_map.mp ha
    rw [List.mem_singleton.mp hb]
    exact new e he
  · intro e he
    rcases List.mem_append.mp he with he | he
    · exact h.values e he
    · rw [List.mem_singleton.mp he]
      exact value

theorem concat_of_lookup (h : Distinct es) (new : es.lookup k = none)
    (value : d.finish.Distinct) : Distinct (es ++ [(k, d)]) := by
  refine h.concat (fun e he same => ?_) value
  simpa [same] using List.lookup_eq_none_iff.mp new e he

theorem filter (h : Distinct es) (p : String × Draft → Bool) : Distinct (es.filter p) where
  keys := h.keys.sublist (List.filter_sublist.map Prod.fst)
  values := fun e he => h.values e (List.mem_of_mem_filter he)

/-- What comes in the place of an entry has its key. -/
theorem set (h : Distinct es) (value : d.finish.Distinct) : Distinct (es.set k d) := by
  unfold Entries.set
  split
  · constructor
    · have same : (es.map fun e => if e.1 = k then (k, d) else e).map Prod.fst = es.map Prod.fst := by
        rw [List.map_map]
        refine List.map_congr_left fun e _ => ?_
        by_cases here : e.1 = k <;> simp [here]
      exact same ▸ h.keys
    · intro e he
      obtain ⟨old, ho, rfl⟩ := List.mem_map.mp he
      split
      · exact value
      · exact h.values old ho
  · rename_i absent
    exact h.concat (fun e he same => absent (List.any_eq_true.mpr ⟨e, he, by simpa using same⟩)) value

end Distinct

theorem Keeps.opened (keeps : Keeps f) {sub : Entries} (h : f [] = some sub) : Distinct sub :=
  keeps [] sub h distinct_nil

/-- A change to a table that is there. -/
theorem Keeps.within (keeps : Keeps f) {sub sub' : Entries} {origin : Origin} (h : f sub = some sub')
    (distinct : Distinct es) (found : es.lookup k = some (.table origin sub)) : Distinct sub' :=
  keeps sub sub' h (distinct_table.mp (distinct.of_lookup found))

theorem distinct_modifyLast? (keeps : Keeps f) {ts ts' : List Entries}
    (h : modifyLast? f ts = some ts') (distinct : ∀ t ∈ ts, Distinct t) :
    ∀ t ∈ ts', Distinct t := by
  induction ts generalizing ts' with
  | nil => cases h
  | cons t rest ih =>
    cases rest with
    | nil =>
      obtain ⟨t', ht, rfl⟩ := Option.map_eq_some_iff.mp h
      simpa using keeps t t' ht (distinct t List.mem_cons_self)
    | cons u rest =>
      obtain ⟨rest', hr, rfl⟩ := Option.map_eq_some_iff.mp h
      have later := ih hr fun t ht => distinct t (List.mem_cons_of_mem _ ht)
      exact List.forall_mem_cons.mpr ⟨distinct t List.mem_cons_self, later⟩

/-- A table that is begun. -/
theorem Keeps.begun (keeps : Keeps f) (distinct : Distinct es) (new : es.lookup k = none)
    {sub : Entries} (h : f [] = some sub) (origin : Origin) :
    Distinct (es ++ [(k, .table origin sub)]) :=
  distinct.concat_of_lookup new (distinct_table.mpr (keeps.opened h))

/-- A table that is changed where it is. -/
theorem Keeps.changed (keeps : Keeps f) (distinct : Distinct es) {origin : Origin}
    {sub sub' : Entries} (found : es.lookup k = some (.table origin sub)) (h : f sub = some sub') :
    Distinct (es.set k (.table origin sub')) :=
  distinct.set (distinct_table.mpr (keeps.within h distinct found))

/-- An array of tables of which the last one is changed. -/
theorem Keeps.changed_last (keeps : Keeps f) (distinct : Distinct es) {ts ts' : List Entries}
    (found : es.lookup k = some (.tables ts)) (h : modifyLast? f ts = some ts') :
    Distinct (es.set k (.tables ts')) :=
  distinct.set (distinct_tables.mpr
    (distinct_modifyLast? keeps h (distinct_tables.mp (distinct.of_lookup found))))

theorem keeps_insertDotted (path : List String) {v : Value} (value : v.Distinct) :
    Keeps (insertDotted path v) := by
  induction path with
  | nil => exact fun _ _ h => nomatch h
  | cons k rest ih =>
    intro es es' h distinct
    cases rest with
    | nil =>
      cases found : es.lookup k with
      | some d => simp [insertDotted, found] at h
      | none =>
        simp only [insertDotted, found, Option.isSome_none, Bool.false_eq_true, if_false] at h
        cases h
        exact distinct.concat_of_lookup found value
    | cons next rest =>
      cases found : es.lookup k with
      | none =>
        simp only [insertDotted, found] at h
        obtain ⟨sub, hs, rfl⟩ := Option.map_eq_some_iff.mp h
        exact ih.begun distinct found hs _
      | some d =>
        cases d with
        | value w => simp [insertDotted, found] at h
        | table origin sub =>
          simp only [insertDotted, found] at h
          obtain ⟨-, h⟩ := Option.ite_none_left_eq_some.mp h
          obtain ⟨sub', hs, rfl⟩ := Option.map_eq_some_iff.mp h
          exact ih.changed distinct found hs
        | tables ts =>
          simp only [insertDotted, found] at h
          obtain ⟨-, h⟩ := Option.ite_none_left_eq_some.mp h
          obtain ⟨ts', ht, rfl⟩ := Option.map_eq_some_iff.mp h
          exact ih.changed_last distinct found ht

theorem keeps_descend (path : List String) (keeps : Keeps f) : Keeps (descend path f) := by
  induction path with
  | nil => exact keeps
  | cons k rest ih =>
    intro es es' h distinct
    cases found : es.lookup k with
    | none =>
      simp only [descend, found] at h
      obtain ⟨sub, hs, rfl⟩ := Option.map_eq_some_iff.mp h
      exact ih.begun distinct found hs _
    | some d =>
      cases d with
      | value w => simp [descend, found] at h
      | table origin sub =>
        simp only [descend, found] at h
        obtain ⟨sub', hs, rfl⟩ := Option.map_eq_some_iff.mp h
        exact ih.changed distinct found hs
      | tables ts =>
        simp only [descend, found] at h
        obtain ⟨ts', ht, rfl⟩ := Option.map_eq_some_iff.mp h
        exact ih.changed_last distinct found ht

theorem keeps_openTable (k : String) (keeps : Keeps f) : Keeps (openTable k f) := by
  intro es es' h distinct
  cases found : es.lookup k with
  | none =>
    simp only [openTable, found] at h
    obtain ⟨sub, hs, rfl⟩ := Option.map_eq_some_iff.mp h
    exact keeps.begun distinct found hs _
  | some d =>
    cases d with
    | value w => simp [openTable, found] at h
    | tables ts => simp [openTable, found] at h
    | table origin sub =>
      cases origin with
      | header => simp [openTable, found] at h
      | dotted => simp [openTable, found] at h
      | passage =>
        simp only [openTable, found] at h
        obtain ⟨sub', hs, rfl⟩ := Option.map_eq_some_iff.mp h
        have inner := distinct_table.mpr (keeps.within hs distinct found)
        refine (distinct.filter _).concat (fun e he => ?_) inner
        simpa using List.of_mem_filter he

theorem keeps_appendTable (k : String) (keeps : Keeps f) : Keeps (appendTable k f) := by
  intro es es' h distinct
  cases found : es.lookup k with
  | none =>
    simp only [appendTable, found] at h
    obtain ⟨sub, hs, rfl⟩ := Option.map_eq_some_iff.mp h
    refine distinct.concat_of_lookup found (distinct_tables.mpr ?_)
    simpa using keeps.opened hs
  | some d =>
    cases d with
    | value w => simp [appendTable, found] at h
    | table origin sub => simp [appendTable, found] at h
    | tables ts =>
      simp only [appendTable, found] at h
      obtain ⟨sub, hs, rfl⟩ := Option.map_eq_some_iff.mp h
      refine distinct.set (distinct_tables.mpr fun t ht => ?_)
      rcases List.mem_append.mp ht with ht | ht
      · exact distinct_tables.mp (distinct.of_lookup found) t ht
      · rw [List.mem_singleton.mp ht]
        exact keeps.opened hs

theorem keeps_foldlM {α : Type} {step : Entries → α → Option Entries} {as : List α}
    (keeps : ∀ a ∈ as, Keeps fun es => step es a) : Keeps fun es => as.foldlM step es := by
  induction as with
  | nil =>
    rintro es es' ⟨⟩
    exact id
  | cons a as ih =>
    intro es es' h distinct
    have h : (step es a).bind (fun between => as.foldlM step between) = some es' := h
    obtain ⟨between, now, later⟩ := Option.bind_eq_some_iff.mp h
    have next := keeps a List.mem_cons_self es between now distinct
    exact ih (fun b hb => keeps b (List.mem_cons_of_mem a hb)) between es' later next

theorem keeps_fill {pairs : List (List String × Value)} (values : ∀ p ∈ pairs, p.2.Distinct) :
    Keeps (fill pairs) :=
  keeps_foldlM fun p hp => keeps_insertDotted p.1 (values p hp)

end Entries

/-! ### Values that are scanned -/

namespace Scan

/-- Whatever a scanner answers has a property. -/
def Yields {α : Type} (p : Scan α) (P : α → Prop) : Prop := ∀ s a r, p s = some (a, r) → P a

namespace Yields

variable {α β : Type} {p q : Scan α} {f : α → Scan β} {P : α → Prop} {Q : β → Prop}

theorem any (p : Scan α) : Yields p fun _ => True := fun _ _ _ _ => trivial

theorem pure {a : α} (h : P a) : Yields (pure a) P := by
  intro s b r answered
  cases answered
  exact h

theorem bind (first : Yields p P) (second : ∀ a, P a → Yields (f a) Q) : Yields (p >>= f) Q := by
  intro s b r answered
  have answered : (p s).bind (fun x => f x.1 x.2) = some (b, r) := answered
  obtain ⟨⟨a, r'⟩, now, later⟩ := Option.bind_eq_some_iff.mp answered
  exact second a (first s a r' now) r' b r later

/-- What comes first makes no difference. -/
theorem after {p : Scan α} (second : ∀ a, Yields (f a) Q) : Yields (p >>= f) Q :=
  (any p).bind fun a _ => second a

theorem orElse (first : Yields p P) (second : Yields q P) : Yields (p <|> q) P := by
  intro s a r answered
  have answered : (p s <|> q s) = some (a, r) := answered
  cases tried : p s with
  | none => exact second s a r (by simpa [tried] using answered)
  | some x => exact first s a r (by simpa [tried] using answered)

theorem optional (h : Yields p P) : Yields (optional p) fun o => ∀ a ∈ o, P a := by
  intro s o r answered
  unfold Scan.optional at answered
  split at answered
  · rename_i b r' found
    cases answered
    rintro a ⟨⟩
    exact h s _ _ found
  · cases answered
    nofun

theorem manyWithin (h : Yields p P) (bound : List β) :
    Yields (manyWithin p bound) fun as => ∀ a ∈ as, P a := by
  induction bound with
  | nil => exact .pure nofun
  | cons _ bound ih =>
    refine h.optional.bind fun o ho => ?_
    cases o with
    | none => exact .pure nofun
    | some a => exact ih.bind fun as has => .pure (List.forall_mem_cons.mpr ⟨ho a rfl, has⟩)

theorem many (h : Yields p P) : Yields (many p) fun as => ∀ a ∈ as, P a :=
  fun s => h.manyWithin s s

theorem sepBy1 (h : Yields p P) (sep : Scan β) : Yields (sepBy1 p sep) fun as => ∀ a ∈ as, P a :=
  h.bind fun _ ha => (after fun _ => h).many.bind fun _ has =>
    .pure (List.forall_mem_cons.mpr ⟨ha, has⟩)

end Yields

variable {element : Scan Value}

theorem yields_number : Yields number Value.Distinct :=
  .orElse (.after fun t => .pure (Value.Keyed.dateTime t)) <|
    .orElse (.after fun x => .pure (Value.Keyed.float x)) <|
      .after fun i => .pure (Value.Keyed.integer i)

theorem yields_scalar : Yields scalar Value.Distinct :=
  .orElse (.after fun s => .pure (Value.Keyed.string s)) <|
    .orElse (.after fun b => .pure (Value.Keyed.boolean b)) yields_number

theorem yields_arrayOf (h : Yields element Value.Distinct) :
    Yields (arrayOf element) Value.Distinct := by
  have one : Yields (do trivia; let v ← element; trivia; return v) Value.Distinct :=
    .after fun _ => h.bind fun _ hv => .after fun _ => .pure hv
  refine .after fun _ => (one.sepBy1 _).optional.bind fun elements he => ?_
  have closed : Yields (do trivia; char ']'; return Value.array (elements.getD [])) Value.Distinct := by
    refine .after fun _ => .after fun _ => .pure (.array fun v hv => ?_)
    cases elements with
    | none => cases hv
    | some vs => exact he vs rfl v hv
  dsimp only
  split
  · exact .after fun _ => closed
  · exact closed

theorem yields_pair (h : Yields element Value.Distinct) :
    Yields (pair element) fun p => p.2.Distinct :=
  .after fun _ => .after fun _ => .after fun _ => h.bind fun _ hv => .pure hv

theorem yields_inlineTableOf (h : Yields element Value.Distinct) :
    Yields (inlineTableOf element) Value.Distinct := by
  have one : Yields (do let p ← pair element; spaces; return p) fun p => p.2.Distinct :=
    (yields_pair h).bind fun _ hp => .after fun _ => .pure hp
  refine .after fun _ => (one.sepBy1 _).optional.bind fun pairs hp => ?_
  refine .after fun _ => .after fun _ => ?_
  have values : ∀ p ∈ pairs.getD [], p.2.Distinct := by
    cases pairs with
    | none => nofun
    | some ps => exact hp ps rfl
  split
  · rename_i es filled
    have distinct := Entries.keeps_fill values [] es filled Entries.distinct_nil
    exact .pure (Entries.distinct_table.mpr distinct)
  · exact fun _ _ _ h => nomatch h

/-- Arrays and inline tables within each other, down to a depth. -/
theorem yields_value (depth : Nat) : Yields (value depth) Value.Distinct := by
  induction depth with
  | zero => exact yields_scalar
  | succ depth ih => exact .orElse (yields_arrayOf ih) (.orElse (yields_inlineTableOf ih) yields_scalar)

theorem yields_pairLine : Yields pairLine fun p => p.2.Distinct :=
  .after fun _ => (yields_pair (yields_value maxDepth)).bind fun _ hp => .after fun _ => .pure hp

theorem yields_sectionBelow : Yields sectionBelow fun s => ∀ p ∈ s.pairs, p.2.Distinct :=
  .after fun _ => yields_pairLine.many.bind fun _ hps => .pure hps

theorem yields_document : Yields document fun d =>
    (∀ p ∈ d.1, p.2.Distinct) ∧ ∀ s ∈ d.2, ∀ p ∈ s.pairs, p.2.Distinct :=
  .after fun _ => yields_pairLine.many.bind fun _ hps => yields_sectionBelow.many.bind fun _ hss =>
    .after fun _ => .after fun _ => .pure ⟨hps, hss⟩

end Scan

theorem keeps_addSection {s : Scan.Section} (values : ∀ p ∈ s.pairs, p.2.Distinct) :
    Entries.Keeps fun es => addSection es s := by
  have fill := Entries.keeps_fill values
  intro es es' h
  unfold addSection at h
  split at h
  · split at h
    · cases h
    · exact Entries.keeps_descend _ (Entries.keeps_openTable _ fill) es es' h
  · split at h
    · cases h
    · exact Entries.keeps_descend _ (Entries.keeps_appendTable _ fill) es es' h

/-- No table in a document has a key twice, the document itself included. -/
theorem distinct_of_read? {s : String} {es : List (String × Value)} (h : read? s = some es) :
    (Value.table es).Distinct := by
  obtain ⟨⟨⟨pairs, sections⟩, rest⟩, scanned, h⟩ := Option.bind_eq_some_iff.mp h
  obtain ⟨top, filled, h⟩ := Option.bind_eq_some_iff.mp h
  obtain ⟨whole, added, h⟩ := Option.bind_eq_some_iff.mp h
  cases h
  obtain ⟨values, below⟩ := Scan.yields_document _ _ _ scanned
  have distinct := Entries.keeps_fill values [] top filled Entries.distinct_nil
  refine Entries.distinct_table.mpr (Entries.keeps_foldlM ?_ top whole added distinct)
  exact fun s hs => keeps_addSection (below s hs)

/-! ### Settled values -/

section Sorted

variable {es : List (String × Value)} {e x : String × Value}

theorem mem_insertByKey : x ∈ insertByKey e es ↔ x = e ∨ x ∈ es := by
  induction es with
  | nil => simp [insertByKey]
  | cons a es ih =>
    unfold insertByKey
    split
    · simp
    · simp [ih, or_left_comm]

theorem mem_sortByKey : x ∈ sortByKey es ↔ x ∈ es := by
  induction es with
  | nil => simp [sortByKey]
  | cons e es ih => simpa [sortByKey, mem_insertByKey] using or_congr_right ih

/-- An entry with a new key goes between the smaller keys and the larger ones. -/
theorem increasing_insertByKey (h : (es.map Prod.fst).Pairwise (· < ·))
    (new : ∀ a ∈ es, a.1 ≠ e.1) : ((insertByKey e es).map Prod.fst).Pairwise (· < ·) := by
  induction es with
  | nil => exact List.pairwise_singleton _ _
  | cons a es ih =>
    obtain ⟨first, rest⟩ := List.pairwise_cons.mp h
    unfold insertByKey
    split
    · rename_i lt
      refine List.pairwise_cons.mpr ⟨fun k hk => ?_, h⟩
      rcases List.mem_cons.mp hk with rfl | hk
      · exact lt
      · exact String.lt_trans lt (first k hk)
    · rename_i le
      have lt : a.1 < e.1 := Std.lt_of_le_of_ne (Std.not_lt.mp le) (new a List.mem_cons_self)
      refine List.pairwise_cons.mpr ⟨fun k hk => ?_, ih rest fun b hb => new b (.tail a hb)⟩
      obtain ⟨b, hb, rfl⟩ := List.mem_map.mp hk
      rcases mem_insertByKey.mp hb with rfl | hb
      · exact lt
      · exact first _ (List.mem_map_of_mem hb)

theorem increasing_sortByKey (h : (es.map Prod.fst).Nodup) :
    ((sortByKey es).map Prod.fst).Pairwise (· < ·) := by
  induction es with
  | nil => exact .nil
  | cons e es ih =>
    obtain ⟨new, rest⟩ := List.nodup_cons.mp h
    refine increasing_insertByKey (ih rest) fun a ha same => new ?_
    exact same ▸ List.mem_map_of_mem (mem_sortByKey.mp ha)

end Sorted

theorem mem_settleElements? {vs ws : List Value} (h : settleElements? vs = some ws) {w : Value}
    (hw : w ∈ ws) : ∃ v ∈ vs, v.settle? = some w := by
  induction vs generalizing ws with
  | nil =>
    cases h
    cases hw
  | cons v vs ih =>
    rw [settleElements?] at h
    obtain ⟨first, now, h⟩ := Option.bind_eq_some_iff.mp h
    obtain ⟨rest, later, h⟩ := Option.bind_eq_some_iff.mp h
    cases h
    rcases List.mem_cons.mp hw with rfl | hw
    · exact ⟨v, List.mem_cons_self, now⟩
    · obtain ⟨u, hu, settled⟩ := ih later hw
      exact ⟨u, List.mem_cons_of_mem v hu, settled⟩

/-- Entries keep their keys when they are settled. -/
theorem settleEntries?_eq {es fs : List (String × Value)} (h : settleEntries? es = some fs) :
    fs.map Prod.fst = es.map Prod.fst ∧
      ∀ f ∈ fs, ∃ e ∈ es, e.2.settle? = some f.2 := by
  induction es generalizing fs with
  | nil =>
    cases h
    exact ⟨rfl, nofun⟩
  | cons e es ih =>
    obtain ⟨k, v⟩ := e
    rw [settleEntries?] at h
    obtain ⟨w, now, h⟩ := Option.bind_eq_some_iff.mp h
    obtain ⟨rest, later, h⟩ := Option.bind_eq_some_iff.mp h
    cases h
    obtain ⟨keys, settled⟩ := ih later
    refine ⟨congrArg (k :: ·) keys, fun f hf => ?_⟩
    rcases List.mem_cons.mp hf with rfl | hf
    · exact ⟨(k, v), List.mem_cons_self, now⟩
    · obtain ⟨e, he, found⟩ := settled f hf
      exact ⟨e, List.mem_cons_of_mem _ he, found⟩

/-- Settled entries without repeated keys are sorted into a table in order. -/
theorem ordered_sortByKey {es fs : List (String × Value)} (keys : (es.map Prod.fst).Nodup)
    (settled : settleEntries? es = some fs)
    (values : ∀ e ∈ es, ∀ w, e.2.settle? = some w → w.Ordered) :
    (Value.table (sortByKey fs)).Ordered := by
  obtain ⟨same, from_es⟩ := settleEntries?_eq settled
  refine .table (increasing_sortByKey (same ▸ keys)) fun f hf => ?_
  obtain ⟨e, he, found⟩ := from_es f (mem_sortByKey.mp hf)
  exact values e he f.2 found

theorem ordered_of_settle? {v : Value} (h : v.Distinct) : ∀ w, v.settle? = some w → w.Ordered := by
  induction h with
  | array elements ih =>
    intro w settled
    rw [Value.settle?] at settled
    obtain ⟨ws, found, rfl⟩ := Option.map_eq_some_iff.mp settled
    refine .array fun u hu => ?_
    obtain ⟨v, hv, from_v⟩ := mem_settleElements? found hu
    exact ih v hv u from_v
  | @table es keys values ih =>
    intro w settled
    cases es with
    | nil =>
      cases settled
      exact .table .nil nofun
    | cons e es =>
      obtain ⟨k, v⟩ := e
      rw [Value.settle?] at settled
      split at settled
      · obtain ⟨t, -, rfl⟩ := Option.map_eq_some_iff.mp settled
        exact .dateTime t
      · obtain ⟨first, now, settled⟩ := Option.bind_eq_some_iff.mp settled
        obtain ⟨rest, later, settled⟩ := Option.bind_eq_some_iff.mp settled
        cases settled
        have whole : settleEntries? ((k, v) :: es) = some ((k, first) :: rest) := by
          rw [settleEntries?, now, later]
          rfl
        exact ordered_sortByKey keys whole ih
  | string s =>
    rintro _ ⟨⟩
    exact .string s
  | integer i =>
    rintro _ ⟨⟩
    exact .integer i
  | float x =>
    rintro _ ⟨⟩
    exact .float x
  | boolean b =>
    rintro _ ⟨⟩
    exact .boolean b
  | dateTime t =>
    rintro _ ⟨⟩
    exact .dateTime t

/-- What a document is decoded from has its keys in order, at every level. -/
theorem ordered_of_read? {s : String} {es : List (String × Value)}
    (h : (read? s).bind settleEntries? = some es) : (Value.table (sortByKey es)).Ordered := by
  obtain ⟨raw, read, settled⟩ := Option.bind_eq_some_iff.mp h
  obtain ⟨keys, values⟩ := Value.keyed_table.mp (distinct_of_read? read)
  exact ordered_sortByKey keys settled fun e he => ordered_of_settle? (values e he)

end Depot.Toml
