/-!
# Ordered sets

A finite set kept as its strictly increasing list, so equal sets are equal values and the
order in which the members are shown is the order of the type.
-/

namespace Depot

variable {α : Type} [Ord α]

/-- Neither order nor repetition of the members can be seen. -/
structure OrderedSet (α : Type) [Ord α] where
  toList : List α
  increasing : toList.Pairwise (fun a b => compare a b = .lt)
  deriving DecidableEq, Repr

namespace OrderedSet

@[ext] theorem ext {s t : OrderedSet α} (h : s.toList = t.toList) : s = t := by
  cases s; cases t; simp_all

def empty : OrderedSet α := ⟨[], .nil⟩

instance : Inhabited (OrderedSet α) := ⟨empty⟩
instance : EmptyCollection (OrderedSet α) := ⟨empty⟩

@[simp] theorem toList_empty : (∅ : OrderedSet α).toList = [] := rfl

instance : Membership α (OrderedSet α) := ⟨fun s a => a ∈ s.toList⟩

theorem mem_def {s : OrderedSet α} {a : α} : a ∈ s ↔ a ∈ s.toList := Iff.rfl

instance [DecidableEq α] (a : α) (s : OrderedSet α) : Decidable (a ∈ s) :=
  inferInstanceAs (Decidable (a ∈ s.toList))

/-- Put a value before the first larger one, or nowhere if it is there. -/
def insertList (a : α) : List α → List α
  | [] => [a]
  | b :: bs =>
    match compare a b with
    | .lt => a :: b :: bs
    | .eq => b :: bs
    | .gt => b :: insertList a bs

theorem mem_of_mem_insertList {a x : α} {bs : List α} (h : x ∈ insertList a bs) :
    x = a ∨ x ∈ bs := by
  induction bs with
  | nil => simpa [insertList] using h
  | cons b bs ih =>
    unfold insertList at h
    split at h
    · simpa using h
    · exact .inr h
    · rcases List.mem_cons.mp h with rfl | h
      · exact .inr List.mem_cons_self
      · exact (ih h).imp id (List.mem_cons_of_mem b)

theorem increasing_insertList [Std.TransOrd α] (a : α) {bs : List α}
    (h : bs.Pairwise (fun a b => compare a b = .lt)) :
    (insertList a bs).Pairwise (fun a b => compare a b = .lt) := by
  induction bs with
  | nil => simp [insertList]
  | cons b bs ih =>
    have hb := List.pairwise_cons.mp h
    unfold insertList
    split
    · rename_i hab
      refine List.pairwise_cons.mpr ⟨fun c hc => ?_, h⟩
      rcases List.mem_cons.mp hc with rfl | hc
      · exact hab
      · exact Std.TransCmp.lt_trans hab (hb.1 c hc)
    · exact h
    · rename_i hab
      refine List.pairwise_cons.mpr ⟨fun c hc => ?_, ih hb.2⟩
      rcases mem_of_mem_insertList hc with rfl | hc
      · exact Std.OrientedCmp.lt_of_gt hab
      · exact hb.1 c hc

def insert [Std.TransOrd α] (a : α) (s : OrderedSet α) : OrderedSet α :=
  ⟨insertList a s.toList, increasing_insertList a s.increasing⟩

def ofList [Std.TransOrd α] (as : List α) : OrderedSet α := as.foldl (fun s a => s.insert a) ∅

/-- The members of either set. -/
def union [Std.TransOrd α] (s t : OrderedSet α) : OrderedSet α := t.toList.foldl (fun s a => s.insert a) s

def filter (p : α → Bool) (s : OrderedSet α) : OrderedSet α :=
  ⟨s.toList.filter p, s.increasing.filter p⟩

def isEmpty (s : OrderedSet α) : Bool := s.toList.isEmpty

theorem mem_insertList [Std.LawfulEqOrd α] {a x : α} {bs : List α} :
    x ∈ insertList a bs ↔ x = a ∨ x ∈ bs := by
  induction bs with
  | nil => simp [insertList]
  | cons b bs ih =>
    unfold insertList
    split
    · simp
    · rename_i h
      have := Std.LawfulEqCmp.eq_of_compare h
      simp [this]
    · simp [ih, or_left_comm]

@[simp] theorem not_mem_empty {x : α} : ¬ x ∈ (∅ : OrderedSet α) := by simp [mem_def]

theorem nodup [Std.LawfulEqOrd α] (s : OrderedSet α) : s.toList.Nodup := by
  refine s.increasing.imp fun {a b} lt same => ?_
  have eq : compare a b = .eq := same ▸ Std.ReflCmp.compare_self
  cases lt.symm.trans eq

variable [Std.TransOrd α] [Std.LawfulEqOrd α]

@[simp] theorem mem_insert {a x : α} {s : OrderedSet α} : x ∈ s.insert a ↔ x = a ∨ x ∈ s :=
  mem_insertList

theorem mem_foldl_insert {x : α} {as : List α} {s : OrderedSet α} :
    x ∈ as.foldl (fun s a => s.insert a) s ↔ x ∈ s ∨ x ∈ as := by
  induction as generalizing s with
  | nil => simp
  | cons a as ih => simp [ih, or_assoc, or_left_comm]

@[simp] theorem mem_ofList {x : α} {as : List α} : x ∈ ofList as ↔ x ∈ as := by
  simp [ofList, mem_foldl_insert]

@[simp] theorem mem_union {x : α} {s t : OrderedSet α} : x ∈ s.union t ↔ x ∈ s ∨ x ∈ t := by
  rw [union, mem_foldl_insert]; rfl

/-- Sets with the same members are the same. -/
theorem ext_mem {s t : OrderedSet α} (h : ∀ a, a ∈ s ↔ a ∈ t) : s = t := by
  have members : s.toList.Perm t.toList := (List.perm_ext_iff_of_nodup s.nodup t.nodup).mpr h
  refine ext (members.eq_of_pairwise (fun a b _ _ lt gt => ?_) s.increasing t.increasing)
  cases lt.symm.trans (Std.OrientedCmp.gt_of_lt gt)

end OrderedSet

end Depot
