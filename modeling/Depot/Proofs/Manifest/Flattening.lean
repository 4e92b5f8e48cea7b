import Depot.Element
import Depot.Proofs.Toml.Keys

/-!
# Flattening

A table becomes an element whose children of a name are what the value of that key consists of when
its arrays are taken apart, however deep they lie within each other: a text for each plain value and
an element for each table, in their order. Children of one name come together, the names increase,
and nothing else is there. So it is at every level of a document.
-/

namespace Depot

namespace Toml

open Text

namespace Value

/-! ### Values without arrays -/

/-- What is in a value when its arrays are taken apart, in order. -/
def leaves : Value → List Value
  | .array vs => vs.flatMap leaves
  | v => [v]

/-- The text of a value that is no array and no table. -/
def text? : Value → Option String
  | .string s => some s
  | .integer i => some (ofInt i)
  | .float x => some x.text
  | .boolean b => some (if b then "true" else "false")
  | .dateTime t => some ("\x7b \"" ++ dateTimeKey ++ "\" = \"" ++ t.text ++ "\" \x7d")
  | .array _ => none
  | .table _ => none

theorem sizeOf_le_of_mem_leaves {v w : Value} (h : w ∈ v.leaves) : sizeOf w ≤ sizeOf v := by
  fun_induction leaves v with
  | case1 vs ih =>
    obtain ⟨v, hv, hw⟩ := List.mem_flatMap.mp h
    have inner := ih v hv hw
    have outer := List.sizeOf_lt_of_mem hv
    simp only [array.sizeOf_spec]
    omega
  | case2 v => exact Nat.le_of_eq (congrArg sizeOf (List.mem_singleton.mp h))

/-- The children of the element of a table: for each key the elements of its leaves. -/
def children : Value → List Element
  | .table es => es.attach.flatMap fun ⟨(k, v), _⟩ =>
      v.leaves.attach.map fun ⟨w, _⟩ => .mk k w.text? w.children
  | _ => []
  termination_by v => sizeOf v
  decreasing_by
    rename_i here inside
    have outer := List.sizeOf_lt_of_mem here
    have inner := sizeOf_le_of_mem_leaves inside
    simp only [table.sizeOf_spec, Prod.mk.sizeOf_spec] at outer ⊢
    omega

/-- The element of a leaf under a key. -/
def image (k : String) (v : Value) : Element := .mk k v.text? v.children

@[simp] theorem name_image (k : String) (v : Value) : (v.image k).name = k := rfl

theorem children_table (es : List (String × Value)) :
    (table es).children = es.flatMap fun e => e.2.leaves.map (image e.1) := by
  rw [children]
  simp only [List.map_subtype, List.unattach_attach]
  conv => rhs; rw [← List.attach_map_subtype_val es, List.flatMap_map]
  rfl

end Value

/-! ### One pass over a document -/

open Value

mutual

theorem elements_eq (k : String) (v : Value) : v.elements k = v.leaves.map (image k) := by
  cases v with
  | array vs => rw [elements, leaves, arrayElements_eq]
  | table es => simp [elements, tableElements_eq, leaves, image, text?, Element.branch]
  | _ => simp [elements, leaves, image, text?, Value.children, Element.leaf]

theorem arrayElements_eq (k : String) (vs : List Value) :
    arrayElements k vs = (vs.flatMap leaves).map (image k) := by
  cases vs with
  | nil => rfl
  | cons v vs =>
    rw [arrayElements, List.flatMap_cons, List.map_append, elements_eq k v, arrayElements_eq k vs]

theorem tableElements_eq (es : List (String × Value)) :
    tableElements es = (table es).children := by
  rw [children_table]
  cases es with
  | nil => rfl
  | cons e es =>
    obtain ⟨k, v⟩ := e
    rw [tableElements, List.flatMap_cons, elements_eq k v, tableElements_eq es, children_table]

end

theorem image_table (k : String) (es : List (String × Value)) :
    (table es).image k = .branch k (tableElements es) := by
  rw [tableElements_eq]
  rfl

/-! ### Children by name -/

variable {es : List (String × Value)} {k : String}

/-- The leaves of the value of a key, if there is one. -/
def leavesAt (es : List (String × Value)) (k : String) : List Value :=
  (es.lookup k).elim [] Value.leaves

theorem filter_images (k k' : String) (vs : List Value) :
    (vs.map (image k')).filter (·.name = k) = if k' = k then vs.map (image k') else [] := by
  induction vs with
  | nil => simp
  | cons v vs ih =>
    rw [List.map_cons, List.filter_cons, ih, name_image]
    split <;> simp_all

/-- Under other keys there is nothing of a name. -/
theorem named_children_of_absent (absent : k ∉ es.map Prod.fst) :
    (table es).children.filter (·.name = k) = [] := by
  refine List.filter_eq_nil_iff.mpr fun x hx => ?_
  rw [children_table] at hx
  obtain ⟨e, he, hx⟩ := List.mem_flatMap.mp hx
  obtain ⟨v, -, rfl⟩ := List.mem_map.mp hx
  have other : e.1 ≠ k := fun same => absent (same ▸ List.mem_map_of_mem he)
  exact fun same => other (of_decide_eq_true same)

theorem named_children (keys : (es.map Prod.fst).Nodup) :
    (table es).children.filter (·.name = k) = (leavesAt es k).map (image k) := by
  induction es with
  | nil => simp [children_table, leavesAt]
  | cons e es ih =>
    obtain ⟨k', v⟩ := e
    obtain ⟨new, rest⟩ := List.nodup_cons.mp keys
    rw [children_table, List.flatMap_cons, List.filter_append, ← children_table, filter_images]
    by_cases here : k' = k
    · subst here
      rw [if_pos rfl, named_children_of_absent new, List.append_nil]
      simp [leavesAt]
    · have there : ((k', v) :: es).lookup k = es.lookup k := by
        rw [List.lookup_cons, beq_false_of_ne (Ne.symm here)]
      rw [if_neg here, List.nil_append, ih rest, leavesAt, leavesAt, there]

theorem mem_of_mem_children {x : Element} (h : x ∈ (table es).children) :
    ∃ v w, (x.name, v) ∈ es ∧ w ∈ v.leaves ∧ x = w.image x.name := by
  rw [children_table] at h
  obtain ⟨⟨k, v⟩, he, hx⟩ := List.mem_flatMap.mp h
  obtain ⟨w, hw, rfl⟩ := List.mem_map.mp hx
  exact ⟨v, w, he, hw, rfl⟩

/-- The names of the children are in the order of the keys. -/
theorem increasing_children (keys : (es.map Prod.fst).Pairwise (· < ·)) :
    (table es).children.Pairwise fun x y => x.name ≤ y.name := by
  rw [children_table, List.pairwise_flatMap]
  constructor
  · intro e _
    rw [List.pairwise_map]
    exact List.pairwise_of_forall fun _ _ => String.le_refl _
  · refine (List.pairwise_map.mp keys).imp fun {a b} lt x hx y hy => ?_
    obtain ⟨v, -, rfl⟩ := List.mem_map.mp hx
    obtain ⟨w, -, rfl⟩ := List.mem_map.mp hy
    exact Std.le_of_lt lt

/-! ### Every level -/

/-- A table and all tables below it, in arrays or not. -/
inductive Within (es : List (String × Value)) : List (String × Value) → Prop where
  | here : Within es es
  | inner {us ts : List (String × Value)} {k : String} {v : Value} :
      Within es us → (k, v) ∈ us → .table ts ∈ v.leaves → Within es ts

theorem ordered_leaf {v w : Value} (h : v.Ordered) (leaf : w ∈ v.leaves) : w.Ordered := by
  fun_induction leaves v with
  | case1 vs ih =>
    obtain ⟨v, hv, hw⟩ := List.mem_flatMap.mp leaf
    exact ih v hv (keyed_array.mp h v hv) hw
  | case2 v => exact List.mem_singleton.mp leaf ▸ h

theorem Within.ordered {us : List (String × Value)} (h : Within es us) :
    (table es).Ordered → (table us).Ordered := by
  intro whole
  induction h with
  | here => exact whole
  | inner _ there leaf ih => exact ordered_leaf ((keyed_table.mp ih).2 _ there) leaf

/-- A leaf is a table or has a text. -/
theorem image_of_mem_leaves (k : String) {v w : Value} (h : w ∈ v.leaves) :
    (∃ es, w = table es ∧ w.image k = .branch k (tableElements es)) ∨
      ∃ t, w.text? = some t ∧ w.image k = .leaf k t := by
  fun_induction leaves v with
  | case1 vs ih =>
    obtain ⟨v, hv, hw⟩ := List.mem_flatMap.mp h
    exact ih v hv hw
  | case2 v no_array =>
    rw [List.mem_singleton.mp h]
    cases v with
    | array vs => exact absurd rfl (no_array vs)
    | table es => exact .inl ⟨es, rfl, image_table k es⟩
    | _ => exact .inr ⟨_, rfl, by simp [image, text?, Value.children, Element.leaf]⟩

theorem leaves_tables (ts : List (List (String × Value))) :
    (array (ts.map table)).leaves = ts.map table := by
  rw [leaves, List.flatMap_map]
  simp only [leaves]
  exact List.flatMap_pure_eq_map ..

/-- An element that has for every key of a table the leaves of its value as children, and no other
children, the smaller names first. -/
structure Placed (es : List (String × Value)) (e : Element) : Prop where
  named : ∀ k, e.named k = (leavesAt es k).map (image k)
  grouped : e.children.Pairwise fun x y => x.name ≤ y.name
  known : ∀ x ∈ e.children, ∃ v, es.lookup x.name = some v ∧ ∃ w ∈ v.leaves, x = w.image x.name
  tables : ∀ k (ts : List (List (String × Value))), es.lookup k = some (.array (ts.map table)) →
    e.named k = ts.map fun t => .branch k (tableElements t)

theorem lookup_of_mem {v : Value} (keys : (es.map Prod.fst).Nodup) (h : (k, v) ∈ es) :
    es.lookup k = some v := by
  induction es with
  | nil => cases h
  | cons e es ih =>
    obtain ⟨new, rest⟩ := List.nodup_cons.mp keys
    rcases List.mem_cons.mp h with rfl | h
    · simp
    · have other : k ≠ e.1 := fun same => new (same ▸ List.mem_map_of_mem h)
      rw [List.lookup_cons, beq_false_of_ne other]
      exact ih rest h

theorem placed_branch (h : (es.map Prod.fst).Pairwise (· < ·)) (n : String) :
    Placed es (.branch n (tableElements es)) := by
  have keys : (es.map Prod.fst).Nodup := h.imp fun lt => Std.ne_of_lt lt
  rw [tableElements_eq]
  constructor
  · exact fun k => named_children keys
  · exact increasing_children h
  · intro x hx
    obtain ⟨v, w, there, leaf, image⟩ := mem_of_mem_children hx
    exact ⟨v, lookup_of_mem keys there, w, leaf, image⟩
  · intro k ts found
    have all : leavesAt es k = ts.map table := by simp [leavesAt, found, leaves_tables]
    refine (named_children keys).trans ?_
    rw [all, List.map_map]
    exact List.map_congr_left fun t _ => image_table k t

theorem ordered_of_decode {bytes : Bytes} {root : Element} (h : decode bytes = .ok root) :
    ∃ es, (table es).Ordered ∧ root = .branch "document" (tableElements es) := by
  unfold decode at h
  split at h
  · cases h
  · split at h
    · cases h
    · rename_i es read
      cases h
      exact ⟨sortByKey es, ordered_of_read? read, rfl⟩

/-- Every value of a table with keys in order lies where its key belongs: the element of the table
has the leaves of each key as its children of that name, and so have the elements of the tables in
it, as far down as they go. A leaf becomes an element of its own, which is made from a table in the
same way, or else holds a text. Each document that can be decoded is made from such a table. -/
theorem flattening_keeps_places :
    (∀ es, (table es).Ordered → ∀ us, Within es us →
      ∀ n, Placed us (.branch n (tableElements us))) ∧
    (∀ (k : String) (v w : Value), w ∈ v.leaves →
      (∃ es, w = .table es ∧ w.image k = .branch k (tableElements es)) ∨
        ∃ t, w.text? = some t ∧ w.image k = .leaf k t) ∧
    ∀ bytes root, decode bytes = .ok root →
      ∃ es, (table es).Ordered ∧ root = .branch "document" (tableElements es) :=
  ⟨fun _ ordered _ within n => placed_branch (keyed_table.mp (within.ordered ordered)).1 n,
    fun k _ _ => image_of_mem_leaves k, fun _ _ => ordered_of_decode⟩

end Toml

namespace Sample

/-- An array of arrays, and two tables of one name. -/
def arrays : String := "z = [[1, [ ]], [true]]\n[[dep]]\nid = 2\n[[dep]]"

end Sample

open Sample in
theorem Toml.flattening_keeps_places_sample :
    ∃ es root, decode (Utf8.encode arrays) = .ok root ∧ (Value.table es).Ordered ∧
      Placed es root ∧ root.children.map (fun e => (e.name, e.text)) =
        [("dep", none), ("dep", none), ("z", some "1"), ("z", some "true")] := by
  have outline : (decode (Utf8.encode arrays)).toOption.map
      (fun root => root.children.map fun e => (e.name, e.text)) =
        some [("dep", none), ("dep", none), ("z", some "1"), ("z", some "true")] := by
    decide +kernel
  cases decoded : decode (Utf8.encode arrays) with
  | error e =>
    rw [decoded] at outline
    cases outline
  | ok root =>
    rw [decoded] at outline
    obtain ⟨places, -, tables⟩ := flattening_keeps_places
    obtain ⟨es, ordered, rfl⟩ := tables _ root decoded
    exact ⟨es, _, rfl, ordered, places es ordered es .here "document", Option.some.inj outline⟩

end Depot
