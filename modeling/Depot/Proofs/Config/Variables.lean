import Mathlib.Data.List.Induction
import Mathlib.Data.Nat.Digits.Defs
import Depot.Config.Load
import Depot.Proofs.Store.Paths
import Depot.Proofs.Text.Trim

/-!
# Variables of the environment

What stands in a variable, said without the functions that read it: a text that is not blank, names
between commas, and a natural number in base ten. A variable in which nothing stands is as good as
one that is not there.
-/

namespace Depot

open Text

namespace Text

/-- The number that a digit stands for. -/
def digit (c : Char) : Nat := c.toNat - '0'.toNat

theorem foldl_digit (s : List Char) : s.foldl (fun n c => n * 10 + (c.toNat - '0'.toNat)) 0 =
    Nat.ofDigits 10 (s.reverse.map digit) := by
  induction s using List.reverseRecOn with
  | nil => rfl
  | append_singleton s c ih =>
    rw [List.foldl_append, List.foldl_cons, List.foldl_nil, ih, List.reverse_append,
      List.reverse_singleton, List.singleton_append, List.map_cons, Nat.ofDigits_cons, digit]
    omega

theorem digits?_eq_some_iff {s : List Char} {n : Nat} : digits? s = some n ↔
    s ≠ [] ∧ (∀ c ∈ s, c.isDigit = true) ∧ Nat.ofDigits 10 (s.reverse.map digit) = n := by
  unfold digits?
  rw [foldl_digit]
  by_cases read : s.isEmpty || s.any (fun c => !c.isDigit)
  · rw [if_pos read]
    simp only [reduceCtorEq, false_iff]
    rintro ⟨some, digits, -⟩
    simp only [Bool.or_eq_true, List.isEmpty_iff, List.any_eq_true, Bool.not_eq_true'] at read
    obtain none | ⟨c, hc, other⟩ := read
    · exact some none
    · exact absurd (digits c hc) (by simp [other])
  · rw [if_neg read]
    simp only [Bool.or_eq_true, List.isEmpty_iff, List.any_eq_true, Bool.not_eq_true', not_or,
      not_exists, not_and, Bool.not_eq_false] at read
    simp only [Option.some.injEq]
    exact ⟨fun value => ⟨read.1, read.2, value⟩, fun h => h.2.2⟩

end Text

namespace Config

variable {env : Environment} {name v : String} {names : List String} {n : Nat}

/-! ### Set and left out -/

/-- A variable has a text in which something stands. -/
def Sets (env : Environment) (name v : String) : Prop := env.lookup name = some v ∧ ¬ Blank v

/-- A variable is not there, or nothing but blanks stand in it. -/
def Leaves (env : Environment) (name : String) : Prop := ∀ v, env.lookup name = some v → Blank v

theorem value?_eq_some_iff : value? env name = some v ↔ Sets env name v := by
  simp [value?, Sets, Option.filter_eq_some_iff, trim_eq_empty_iff]

theorem value?_eq_none_iff : value? env name = none ↔ Leaves env name := by
  simp [value?, Leaves, Option.filter_eq_none_iff, trim_eq_empty_iff]

/-! ### Names and counts -/

/-- Names stand between commas. Blanks around a name do not belong to it, and where nothing else
stands there is no name. -/
def Lists (v : String) (names : List String) : Prop :=
  ∃ pieces : List String, pieces ≠ [] ∧ (∀ p ∈ pieces, ',' ∉ p.toList) ∧
    Text.join "," pieces = v ∧ (pieces.map trim).filter (· ≠ "") = names

theorem lists_iff : Lists v names ↔ scopeNames v = names := by
  constructor
  · rintro ⟨pieces, some, apart, rfl, rfl⟩
    rw [scopeNames, show "," = String.singleton ',' from rfl, split_join some apart]
  · rintro rfl
    have apart : ∀ p ∈ split ',' v, ',' ∉ p.toList := by
      intro p hp
      obtain ⟨q, hq, rfl⟩ := List.mem_map.mp hp
      rw [String.toList_ofList]
      exact not_mem_of_mem_splitOn hq
    exact ⟨split ',' v, by simp [split], apart, join_split ',' v, rfl⟩

/-- A count is a natural number in base ten, maybe after a plus sign. Blanks around it do not belong
to it. -/
def Counts (v : String) (n : Nat) : Prop :=
  ∃ sign digits : List Char, (trim v).toList = sign ++ digits ∧ (sign = [] ∨ sign = ['+']) ∧
    digits ≠ [] ∧ (∀ d ∈ digits, d.isDigit = true) ∧ Nat.ofDigits 10 (digits.reverse.map digit) = n

/-- The characters after a sign, if there is one. -/
def unsigned : List Char → List Char
  | '+' :: rest => rest
  | cs => cs

theorem unsigned_digits {digits : List Char} (h : ∀ d ∈ digits, d.isDigit = true) :
    unsigned digits = digits := by
  unfold unsigned
  split
  · cases h '+' List.mem_cons_self
  · rfl

theorem exists_sign (cs : List Char) :
    ∃ sign, cs = sign ++ unsigned cs ∧ (sign = [] ∨ sign = ['+']) := by
  unfold unsigned
  split
  · exact ⟨['+'], rfl, .inr rfl⟩
  · exact ⟨[], rfl, .inl rfl⟩

theorem count?_eq (v : String) : count? v = do
    let n ← digits? (unsigned (trim v).toList)
    guard (n < Nat.pow 2 64)
    return n := by
  unfold count?
  dsimp only
  split
  · rename_i text
    rw [text, unsigned]
  · rename_i other
    rw [unsigned]
    exact other

theorem count?_eq_some_iff : count? v = some n ↔ Counts v n ∧ n < 2 ^ 64 := by
  have read : count? v = some n ↔ digits? (unsigned (trim v).toList) = some n ∧ n < 2 ^ 64 := by
    rw [count?_eq]
    cases digits? (unsigned (trim v).toList) with
    | none => simp
    | some k =>
      simp only [Option.bind_eq_bind, Option.bind_some, guard, Option.some.injEq]
      split
      · rename_i small
        simp only [Option.pure_def, Option.bind_some, Option.some.injEq, iff_self_and]
        rintro rfl
        exact small
      · rename_i large
        simp only [Option.failure_eq_none, Option.bind_none, reduceCtorEq, false_iff, not_and]
        rintro rfl
        exact large
  rw [read, and_congr_left_iff]
  intro _
  rw [digits?_eq_some_iff]
  constructor
  · rintro ⟨some, digits, value⟩
    obtain ⟨sign, text, signed⟩ := exists_sign (trim v).toList
    exact ⟨sign, _, text, signed, some, digits, value⟩
  · rintro ⟨sign, digits, text, signed, some, all, value⟩
    have same : unsigned (trim v).toList = digits := by
      obtain rfl | rfl := signed
      · rw [text, List.nil_append, unsigned_digits all]
      · rw [text]
        rfl
    exact ⟨same ▸ some, same ▸ all, same ▸ value⟩

end Config

namespace Scope

/-- A name of a scope, in any case and with blanks around it. -/
def HasName (s : Scope) (n : String) : Prop := lower (trim n) = s.name

theorem parse?_eq_some_iff {s : Scope} {n : String} : parse? n = some s ↔ s.HasName n := by
  unfold parse? ofName? HasName
  constructor
  · intro found
    have named := List.find?_some found
    rw [decide_eq_true_eq] at named
    exact named.symm
  · intro named
    rw [named]
    cases s <;> decide +kernel

end Scope

theorem ScopeSet.mem_ofNames {names : List String} {s : Scope} :
    s ∈ ofNames names ↔ ∃ n ∈ names, s.HasName n := by
  simp only [ofNames, OrderedSet.mem_ofList, List.mem_filterMap, Scope.parse?_eq_some_iff]

theorem ScopeSet.ofNames_runtime : ofNames ["compile", "runtime"] = runtimeSet :=
  congrArg OrderedSet.ofList (by decide +kernel)

namespace Config

/-- The variables can be used: what limits the fetches is a positive number of 64 bits, and there are
scopes, all of them known. -/
structure ValidVariables (env : Environment) : Prop where
  fetches : ∀ v, Sets env maxFetchesVariable v → ∃ n, Counts v n ∧ 1 ≤ n ∧ n < 2 ^ 64
  scopes : ∀ v, Sets env scopesVariable v → ∃ names, Lists v names ∧ names ≠ [] ∧
    ∀ n ∈ names, ∃ s : Scope, s.HasName n

/-- A value is what stands in a variable that is set. Otherwise it is that of the project, or else the
global one, or else the default. -/
structure Chosen {α : Type} (env : Environment) (name : String) (means : String → α → Prop)
    (project globals default value : Option α) : Prop where
  set : ∀ v, Sets env name v → ∃ a, means v a ∧ value = some a
  unset : Leaves env name → value = (project <|> globals <|> default)

theorem chosen_of_value? {α : Type} {env : Environment} {name : String}
    {means : String → α → Prop} {project globals default value : Option α} (read : String → Option α)
    (reads : ∀ v, Sets env name v → ∃ a, means v a ∧ read v = some a)
    (h : value = ((value? env name).bind read <|> project <|> globals <|> default)) :
    Chosen env name means project globals default value where
  set v hv := by
    obtain ⟨a, meant, found⟩ := reads v hv
    refine ⟨a, meant, ?_⟩
    rw [h, value?_eq_some_iff.mpr hv, Option.bind_some, found]
    rfl
  unset left := by
    rw [h, value?_eq_none_iff.mpr left]
    rfl

end Config

end Depot
