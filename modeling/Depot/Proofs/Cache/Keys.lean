import Mathlib.Order.Defs.Unbundled
import Depot.Cache

/-!
# Keys of roots

The key of some roots is the one list that has them once each and in their order. So two lists of
roots have the same key if they have the same members, and only then.
-/

namespace Depot

namespace Coordinate

/-- No classifier comes before any classifier. -/
def ClassifierBefore : Option String → Option String → Prop
  | none, some _ => True
  | some k, some k' => k < k'
  | _, none => False

/-- The order of coordinates: the first part in which they differ decides. -/
def Before (c d : Coordinate) : Prop :=
  c.group < d.group ∨ c.group = d.group ∧
    (c.artifact < d.artifact ∨ c.artifact = d.artifact ∧
      (c.version < d.version ∨ c.version = d.version ∧ ClassifierBefore c.classifier d.classifier))

theorem compare_string_eq_lt {s t : String} : compare s t = .lt ↔ s < t := compareOfLessAndEq_eq_lt

theorem compare_classifier_eq_lt {k k' : Option String} :
    compare k k' = .lt ↔ ClassifierBefore k k' := by
  cases k with
  | none => cases k' <;> simp [ClassifierBefore, compare]
  | some k =>
    cases k' with
    | none => simp [ClassifierBefore, compare]
    | some k' => exact compare_string_eq_lt

theorem compare_eq_lt {c d : Coordinate} : compare c d = .lt ↔ c.Before d := by
  change order c d = .lt ↔ _
  simp only [order, compareLex, compareOn, Ordering.then_eq_lt, Std.compare_eq_iff_eq,
    compare_string_eq_lt, compare_classifier_eq_lt]
  rfl

theorem isStrictTotalOrder_before : IsStrictTotalOrder Coordinate Before where
  irrefl c before := by
    have same : compare c c = .eq := Std.ReflCmp.compare_self
    cases same.symm.trans (compare_eq_lt.mpr before)
  trans _ _ _ h h' :=
    compare_eq_lt.mp (Std.TransCmp.lt_trans (compare_eq_lt.mpr h) (compare_eq_lt.mpr h'))
  trichotomous c d not_before not_after := by
    cases compared : compare c d with
    | lt => exact absurd (compare_eq_lt.mp compared) not_before
    | eq => exact Std.LawfulEqCmp.eq_of_compare compared
    | gt => exact absurd (compare_eq_lt.mp (Std.OrientedCmp.lt_of_gt compared)) not_after

end Coordinate

namespace RootKey

variable {a b : List Coordinate}

theorem mem_ofRoots {c : Coordinate} : c ∈ (ofRoots a).toList ↔ c ∈ a := OrderedSet.mem_ofList

theorem ofRoots_eq_iff : ofRoots a = ofRoots b ↔ ∀ c, c ∈ a ↔ c ∈ b := by
  constructor
  · intro same c
    rw [← mem_ofRoots, same, mem_ofRoots]
  · intro same
    refine OrderedSet.ext_mem fun c => ?_
    exact mem_ofRoots.trans ((same c).trans mem_ofRoots.symm)

/-- A key has the members of a list, one before the other, and there is no other way to list them
so. -/
structure Lists (k : RootKey) (roots : List Coordinate) : Prop where
  increasing : k.toList.Pairwise Coordinate.Before
  members : ∀ c, c ∈ k.toList ↔ c ∈ roots
  unique : ∀ cs : List Coordinate, cs.Pairwise Coordinate.Before → (∀ c, c ∈ cs ↔ c ∈ roots) →
    cs = k.toList

theorem lists_ofRoots (roots : List Coordinate) : (ofRoots roots).Lists roots where
  increasing := (ofRoots roots).increasing.imp Coordinate.compare_eq_lt.mp
  members _ := mem_ofRoots
  unique cs increasing members := by
    let listed : RootKey := ⟨cs, increasing.imp Coordinate.compare_eq_lt.mpr⟩
    have same : listed = ofRoots roots :=
      OrderedSet.ext_mem fun c => (members c).trans mem_ofRoots.symm
    exact congrArg OrderedSet.toList same

end RootKey

end Depot
