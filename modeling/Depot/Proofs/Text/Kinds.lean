import Mathlib.Data.List.Basic
import Depot.Kind
import Depot.Proofs.Text.Trim

/-!
# Types as texts

A type is a text in a manifest or on the command line. What kind it names is decided by its letters
in lower case without the blanks around them. Trimming and lower case do not get in each other's way:
no letter becomes a blank, and no blank a letter. So this key of a text is its own key, the name of
a kind names that kind, and apart from the names that stand for others, two texts name the same kind
exactly if they have the same key.
-/

namespace Depot

namespace Text

/-! ### Letters in lower case -/

/-- A letter of A to Z is moved by 32, and every other character stays. -/
theorem toLower_cases (c : Char) :
    (c.isUpper = true ∧ c.toLower.toNat = c.toNat + 32) ∨
      (c.isUpper = false ∧ c.toLower = c) := by
  by_cases upper : c.val ≥ 'A'.val ∧ c.val ≤ 'Z'.val
  · have last : c.val.toNat ≤ 90 := UInt32.le_iff_toNat_le.mp upper.2
    have moved : c.toLower.val = c.val + 32 := congrArg Char.val (dif_pos upper)
    refine .inl ⟨decide_eq_true upper, ?_⟩
    change c.toLower.val.toNat = c.val.toNat + 32
    rw [moved, UInt32.toNat_add, Nat.mod_eq_of_lt]
    · rfl
    · change c.val.toNat + 32 < 2 ^ 32
      omega
  · exact .inr ⟨decide_eq_false upper, dif_neg upper⟩

theorem isUpper_iff {c : Char} : c.isUpper = true ↔ 65 ≤ c.toNat ∧ c.toNat ≤ 90 := by
  change decide (c.val ≥ 'A'.val ∧ c.val ≤ 'Z'.val) = true ↔ _
  simp only [decide_eq_true_eq, ge_iff_le, UInt32.le_iff_toNat_le]
  rfl

theorem toLower_of_not_isUpper {c : Char} (h : c.isUpper = false) : c.toLower = c := by
  rcases toLower_cases c with ⟨upper, -⟩ | ⟨-, same⟩
  · rw [h] at upper
    cases upper
  · exact same

theorem isUpper_toLower (c : Char) : c.toLower.isUpper = false := by
  rcases toLower_cases c with ⟨upper, moved⟩ | ⟨lower, same⟩
  · have range := isUpper_iff.mp upper
    rw [Bool.eq_false_iff, ne_eq, isUpper_iff, moved]
    omega
  · rwa [same]

@[simp] theorem isBlank_toLower (c : Char) : isBlank c.toLower = isBlank c := by
  rcases toLower_cases c with ⟨upper, moved⟩ | ⟨-, same⟩
  · -- neither the letter nor what it becomes is a blank
    have range := isUpper_iff.mp upper
    rw [Bool.eq_iff_iff]
    simp only [isBlank, moved, Bool.or_eq_true, Bool.and_eq_true, decide_eq_true_eq, beq_iff_eq]
    omega
  · rw [same]

theorem isUpper_of_mem_lower {s : String} {c : Char} (h : c ∈ (lower s).toList) :
    c.isUpper = false := by
  rw [toList_lower] at h
  obtain ⟨d, -, rfl⟩ := List.mem_map.mp h
  exact isUpper_toLower d

/-- A text without a letter of A to Z stays as it is. -/
theorem lower_of_no_upper {s : String} (h : ∀ c ∈ s.toList, c.isUpper = false) : lower s = s := by
  have same : s.toList.map Char.toLower = s.toList.map id :=
    List.map_congr_left fun c hc => toLower_of_not_isUpper (h c hc)
  rw [← String.toList_inj, toList_lower, same, List.map_id]

@[simp] theorem lower_lower (s : String) : lower (lower s) = lower s :=
  lower_of_no_upper fun _ => isUpper_of_mem_lower

/-- It makes no difference whether a text is trimmed before or after. -/
theorem trim_lower (s : String) : trim (lower s) = lower (trim s) := by
  have blank : isBlank ∘ Char.toLower = isBlank := funext isBlank_toLower
  rw [← String.toList_inj]
  simp only [toList_trim, toList_lower, trimChars, List.dropWhile_map, ← List.map_reverse, blank]

end Text

open Text

/-! ### The key of a type -/

namespace Kind

/-- What decides the kind that a type names. No type is the same as an empty one. -/
def key (t : Option String) : String := lower (trim (t.getD ""))

/-- The texts that stand for the name of a kind. -/
def aliases : List (String × String) := [("", "jar"), ("sources", "source"), ("pom", "manifest")]

/-- The name that a text stands for, which is the text itself unless it is an alias. -/
def unaliased (s : String) : String := (aliases.lookup s).getD s

/-- The texts that do not name a file by its extension. -/
def reserved : List String := ["jar", "source", "sources", "manifest", "pom", "metadata"]

/-- What the extension of a kind is if a type names that kind. -/
structure IsTyped (e : String) : Prop where
  nonempty : e ≠ ""
  trimmed : trim e = e
  no_upper : ∀ c ∈ e.toList, c.isUpper = false
  unreserved : e ∉ reserved

variable {t u : Option String} {e : String}

@[simp] theorem key_key (t : Option String) : key (some (key t)) = key t := by
  simp only [key, Option.getD_some, trim_lower, trim_trim, lower_lower]

theorem IsTyped.key_eq (h : IsTyped e) : key (some e) = e := by
  rw [key, Option.getD_some, h.trimmed, lower_of_no_upper h.no_upper]

/-- Types with the same key name the same kind. -/
theorem ofType_congr (h : key t = key u) : ofType t = ofType u := by
  have absent : ofType none = ofType (some "") := by decide
  have given (t : Option String) : ofType t = ofType (some (t.getD "")) := by
    cases t with
    | none => exact absent
    | some t => rfl
  rw [given t, given u]
  simp only [key] at h
  simp only [ofType, h]

theorem ofType_eq_other_iff :
    ofType t = .other e ↔ key t = e ∧ e ≠ "" ∧ e ∉ reserved := by
  cases t with
  | none =>
    have empty : key none = "" := by decide
    rw [empty]
    constructor
    · intro named
      cases named
    · rintro ⟨rfl, nonempty, -⟩
      exact absurd rfl nonempty
  | some t =>
    simp only [ofType, key, Option.getD_some]
    generalize lower (trim t) = s
    simp only [reserved, List.mem_cons, List.not_mem_nil, or_false, not_or]
    -- each of the texts that are compared before is a reserved one
    split_ifs <;> grind

/-- The extensions that a type can name are the texts that are their own key, but for those that
name another kind. -/
theorem exists_ofType_eq_other_iff : (∃ t, ofType t = .other e) ↔ IsTyped e := by
  constructor
  · rintro ⟨t, named⟩
    obtain ⟨rfl, nonempty, unreserved⟩ := ofType_eq_other_iff.mp named
    refine ⟨nonempty, ?_, fun c => isUpper_of_mem_lower, unreserved⟩
    rw [key, trim_lower, trim_trim]
  · intro h
    exact ⟨some e, ofType_eq_other_iff.mpr ⟨h.key_eq, h.nonempty, h.unreserved⟩⟩

/-- The name of a kind names that kind. -/
@[simp] theorem ofType_name (t : Option String) : ofType (some (ofType t).name) = ofType t := by
  cases named : ofType t with
  | jar | source | manifest | metadata => decide
  | other e =>
    obtain ⟨rfl, nonempty, unreserved⟩ := ofType_eq_other_iff.mp named
    exact ofType_eq_other_iff.mpr ⟨key_key t, nonempty, unreserved⟩

theorem name_ofType (t : Option String) : (ofType t).name = unaliased (key t) := by
  cases t with
  | none => decide
  | some t =>
    simp only [ofType, key, Option.getD_some, unaliased, aliases]
    generalize lower (trim t) = s
    split_ifs <;> grind [name]

/-- Two types name the same kind exactly if their keys are the same once aliases are replaced by the
names that they stand for. -/
theorem ofType_eq_iff : ofType t = ofType u ↔ unaliased (key t) = unaliased (key u) := by
  rw [← name_ofType, ← name_ofType]
  constructor
  · intro same
    rw [same]
  · intro same
    rw [← ofType_name t, same, ofType_name]

end Kind

end Depot
