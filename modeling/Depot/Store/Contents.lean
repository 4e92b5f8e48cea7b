import Depot.Utf8

/-!
# Contents by path

A finite map from paths to bytes, kept as its list by increasing path.
-/

namespace Depot

structure Contents where
  toList : List (String × Bytes)
  increasing : toList.Pairwise (fun a b => compare a.1 b.1 = .lt)
  deriving Repr

namespace Contents

def empty : Contents := ⟨[], .nil⟩

instance : Inhabited Contents := ⟨empty⟩

def size (m : Contents) : Nat := m.toList.length

def find? (m : Contents) (k : String) : Option Bytes := m.toList.lookup k

def insertList (k : String) (v : Bytes) : List (String × Bytes) → List (String × Bytes)
  | [] => [(k, v)]
  | (j, w) :: es =>
    match compare k j with
    | .lt => (k, v) :: (j, w) :: es
    | .eq => (k, v) :: es
    | .gt => (j, w) :: insertList k v es

theorem mem_of_mem_insertList {k : String} {v : Bytes} {x : String × Bytes}
    {es : List (String × Bytes)} (h : x ∈ insertList k v es) : x = (k, v) ∨ x ∈ es := by
  induction es with
  | nil => simpa [insertList] using h
  | cons e es ih =>
    unfold insertList at h
    split at h
    · simpa using h
    · exact (List.mem_cons.mp h).imp id (List.mem_cons_of_mem e)
    · rcases List.mem_cons.mp h with rfl | h
      · exact .inr List.mem_cons_self
      · exact (ih h).imp id (List.mem_cons_of_mem e)

theorem increasing_insertList (k : String) (v : Bytes) {es : List (String × Bytes)}
    (h : es.Pairwise (fun a b => compare a.1 b.1 = .lt)) :
    (insertList k v es).Pairwise (fun a b => compare a.1 b.1 = .lt) := by
  induction es with
  | nil => simp [insertList]
  | cons e es ih =>
    have he := List.pairwise_cons.mp h
    unfold insertList
    split
    · rename_i hk
      refine List.pairwise_cons.mpr ⟨fun x hx => ?_, h⟩
      rcases List.mem_cons.mp hx with rfl | hx
      · exact hk
      · exact Std.TransCmp.lt_trans hk (he.1 x hx)
    · rename_i hk
      have hk := Std.LawfulEqCmp.eq_of_compare hk
      subst hk
      exact List.pairwise_cons.mpr ⟨he.1, he.2⟩
    · rename_i hk
      refine List.pairwise_cons.mpr ⟨fun x hx => ?_, ih he.2⟩
      rcases mem_of_mem_insertList hx with rfl | hx
      · exact Std.OrientedCmp.lt_of_gt hk
      · exact he.1 x hx

def insert (k : String) (v : Bytes) (m : Contents) : Contents :=
  ⟨insertList k v m.toList, increasing_insertList k v m.increasing⟩

def erase (k : String) (m : Contents) : Contents :=
  ⟨m.toList.filter (·.1 ≠ k), m.increasing.filter _⟩

/-- The least path that is not below the given one. -/
def firstFrom? (m : Contents) (k : String) : Option String :=
  (m.toList.find? fun e => (compare e.1 k).isGE).map (·.1)

/-- All stored bytes. -/
def values (m : Contents) : List Bytes := m.toList.map (·.2)

theorem mem_values_of_find? {m : Contents} {k : String} {v : Bytes} (h : m.find? k = some v) :
    v ∈ m.values := by
  unfold find? at h
  unfold values
  generalize m.toList = es at h ⊢
  induction es with
  | nil => simp at h
  | cons e es ih =>
    rw [List.lookup_cons] at h
    split at h
    · simp_all
    · exact List.mem_cons_of_mem _ (ih h)

end Contents

end Depot
