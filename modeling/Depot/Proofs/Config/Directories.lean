import Mathlib.Data.List.DropRight
import Depot.Config.Load
import Depot.Proofs.Text.Trim
import Depot.Proofs.Tree.Lookup

/-!
# Directories of files

A path without its last segment is shorter, so a search that goes upward from a directory ends, and
it ends at the nearest directory with a project file. Only the empty path and the root have no
segment to lose, and neither can be read, so every file that is read lies in a directory.
-/

namespace Depot

open Text

namespace Text

/-- The length of pieces with a separator after each of them. -/
def extent : List String → Nat
  | [] => 0
  | s :: rest => s.length + 1 + extent rest

@[simp] theorem extent_nil : extent [] = 0 := rfl

@[simp] theorem extent_cons (s : String) (rest : List String) :
    extent (s :: rest) = s.length + 1 + extent rest := rfl

@[simp] theorem extent_append (front back : List String) :
    extent (front ++ back) = extent front + extent back := by
  induction front with
  | nil => simp
  | cons s front ih =>
    rw [List.cons_append, extent_cons, extent_cons, ih]
    omega

theorem extent_le {front whole : List String} (h : front <+: whole) :
    extent front ≤ extent whole := by
  obtain ⟨back, rfl⟩ := h
  simp

/-- There is no separator after the last piece. -/
theorem length_join (sep : Char) {pieces : List String} (some : pieces ≠ []) :
    (join (String.singleton sep) pieces).length + 1 = extent pieces := by
  induction pieces with
  | nil => exact absurd rfl some
  | cons s rest ih =>
    cases rest with
    | nil => simp [join]
    | cons t rest =>
      have inner := ih (List.cons_ne_nil t rest)
      unfold join at inner ⊢
      rw [String.intercalate_cons_cons, String.length_append, String.length_append]
      simp only [String.length_singleton, extent_cons] at inner ⊢
      omega

theorem split_ne_nil (sep : Char) (s : String) : split sep s ≠ [] := by simp [split]

theorem extent_split (sep : Char) (s : String) : extent (split sep s) = s.length + 1 := by
  rw [← length_join sep (split_ne_nil sep s), join_split]

end Text

/-! ### Paths without their last segment -/

namespace Path

theorem prefix_significant (segments : List String) : significant segments <+: segments := by
  cases segments with
  | nil => exact List.prefix_rfl
  | cons s rest => exact (List.prefix_cons_inj s).mpr (List.rdropWhile_prefix _ rest)

/-- The last segment that counts names something, unless it is the first. -/
theorem significant_last {segments before : List String} {last : String} (some : before ≠ [])
    (h : significant segments = before ++ [last]) : last ≠ "" := by
  cases segments with
  | nil => cases before <;> cases h
  | cons s rest =>
    obtain ⟨t, before, rfl⟩ := List.exists_cons_of_ne_nil some
    rw [List.cons_append] at h
    have tail : rest.rdropWhile (fun t => decide (t = "" ∨ t = ".")) = before ++ [last] :=
      (List.cons.inj h).2
    have left : rest.rdropWhile (fun t => decide (t = "" ∨ t = ".")) ≠ [] := tail ▸ by simp
    have named := List.rdropWhile_last_not (fun t => decide (t = "" ∨ t = ".")) rest left
    rw [decide_eq_true_eq, not_or] at named
    simpa only [tail, List.getLast_append_singleton] using named.1

theorem significant_eq_nil {segments : List String} : significant segments = [] ↔ segments = [] := by
  cases segments <;> simp [significant]

/-- A directory has a shorter path than what lies in it. -/
theorem length_lt_of_parent? {p q : String} (h : parent? p = some q) : q.length < p.length := by
  have whole := extent_le (prefix_significant (split '/' p))
  unfold parent? at h
  split at h
  · cases h
  · rename_i not_root
    obtain none | ⟨before, last, pieces⟩ := List.eq_nil_or_concat' (significant (split '/' p))
    · exact absurd (significant_eq_nil.mp none) (split_ne_nil '/' p)
    rw [pieces, List.dropLast_concat] at h
    rw [pieces, extent_split, extent_append, extent_cons, extent_nil] at whole
    have front := extent_le (prefix_significant before)
    split at h
    · -- only the root is left
      rename_i root
      cases h
      have named : last ≠ "" := significant_last (by rintro rfl; cases root) pieces
      have := Nat.pos_of_ne_zero (mt String.length_eq_zero_iff.mp named)
      simp only [root, extent_cons, extent_nil] at front
      simp only [show "/".length = 1 from rfl]
      omega
    · cases h
      by_cases none : before = []
      · -- a single name lies in the directory of the empty path
        subst none
        have named : last ≠ "" := by
          rintro rfl
          exact not_root pieces
        have := Nat.pos_of_ne_zero (mt String.length_eq_zero_iff.mp named)
        simp only [significant, extent_nil] at whole ⊢
        simp only [show (Text.join "/" []).length = 0 from rfl]
        omega
      · have := length_join '/' (mt significant_eq_nil.mp none)
        simp only [show String.singleton '/' = "/" from rfl] at this
        omega

/-- The empty path and the root are all that has no directory: nothing comes after the start, or
only names that stay where they are. -/
theorem exists_of_parent?_eq_none {p : String} (h : parent? p = none) :
    ∃ rest, split '/' p = "" :: rest ∧ ∀ s ∈ rest, s = "" ∨ s = "." := by
  have root : significant (split '/' p) = [""] := by
    unfold parent? at h
    split at h
    · assumption
    · split at h <;> cases h
  obtain ⟨s, rest, pieces⟩ := List.exists_cons_of_ne_nil (split_ne_nil '/' p)
  rw [pieces] at root ⊢
  obtain ⟨rfl, none⟩ := List.cons.inj root
  have skipped : rest.rdropWhile (fun t => decide (t = "" ∨ t = ".")) = [] := none
  exact ⟨rest, rfl, by simpa using List.rdropWhile_eq_nil_iff.mp skipped⟩

theorem isAbsolute_of_split {p : String} {rest : List String} (some : p ≠ "")
    (h : split '/' p = "" :: rest) : isAbsolute p = true := by
  obtain ⟨c, cs, whole⟩ := List.exists_cons_of_ne_nil (mt String.toList_eq_nil_iff.mp some)
  by_cases slash : c = '/'
  · simp [isAbsolute, startsWith, whole, slash]
  · -- the first piece begins with another character
    obtain ⟨d, ds, rest_pieces⟩ := List.exists_cons_of_ne_nil (List.splitOn_ne_nil '/' cs)
    rw [split, whole, List.splitOn_cons_eq_if_modifyHead, if_neg (by simpa using slash), rest_pieces]
      at h
    simp at h

end Path

namespace FileTree

variable {t : FileTree}

/-- Names that stay where they are lead nowhere else. -/
theorem walk_stays {here there names : List String} (stay : ∀ s ∈ names, s = "" ∨ s = ".")
    (h : t.walk here names = .ok there) : there = here := by
  induction names with
  | nil =>
    cases h
    rfl
  | cons s rest ih =>
    have rest_stay := ih fun r hr => stay r (List.mem_cons_of_mem s hr)
    obtain rfl | rfl := stay s List.mem_cons_self
    · rw [walk_empty] at h
      exact rest_stay h
    · cases opened : t.closed? here with
      | none =>
        rw [walk_dot opened] at h
        exact rest_stay h
      | some why =>
        rw [walk_closed (by decide) opened] at h
        cases h

/-- Whatever can be read lies in a directory. -/
theorem exists_parent?_of_read {p : String} {b : Bytes} (h : t.read p = .ok b) :
    ∃ dir, Path.parent? p = some dir := by
  refine Option.ne_none_iff_exists'.mp fun none => ?_
  obtain ⟨rest, pieces, skipped⟩ := Path.exists_of_parent?_eq_none none
  obtain ⟨path, m, found, -⟩ := read_eq_ok.mp h
  obtain ⟨located, there⟩ := entry_eq_ok.mp found
  obtain ⟨_, checked, walked⟩ := exists_ok_of_bind located
  have some : p ≠ "" := by
    rintro rfl
    cases checked
  have root : path = [] := by
    rw [pieces, walk_empty, base, if_pos (Path.isAbsolute_of_split some pieces)] at walked
    exact walk_stays skipped walked
  rw [root] at there
  cases there

end FileTree

/-! ### The nearest project -/

namespace Config

/-- The directory of the project that another directory belongs to: itself if it has a project file,
and otherwise that of the directory above it. -/
inductive NearestProject (files : FileTree) : String → Option String → Prop where
  | here {dir : String} (found : files.isFile (Path.join dir projectFile) = true) :
    NearestProject files dir (some dir)
  | above {dir up : String} {nearest : Option String}
    (missing : files.isFile (Path.join dir projectFile) = false)
    (next : Path.parent? dir = some up) (rest : NearestProject files up nearest) :
    NearestProject files dir nearest
  | nowhere {dir : String} (missing : files.isFile (Path.join dir projectFile) = false)
    (top : Path.parent? dir = none) : NearestProject files dir none

theorem nearest_findProjectWith (files : FileTree) {fuel : Nat} {dir : String}
    (enough : dir.length < fuel) : NearestProject files dir (findProjectWith files fuel dir) := by
  induction fuel generalizing dir with
  | zero => cases enough
  | succ fuel ih =>
    unfold findProjectWith
    by_cases found : files.isFile (Path.join dir projectFile) = true
    · rw [if_pos found]
      exact .here found
    · rw [if_neg found]
      have missing := Bool.eq_false_iff.mpr found
      cases next : Path.parent? dir with
      | none => exact .nowhere missing next
      | some up =>
        have shorter := Path.length_lt_of_parent? next
        exact .above missing next (ih (by omega))

/-- The search goes up as far as there are directories. -/
theorem nearest_findProject (files : FileTree) (start : String) :
    NearestProject files start (findProject files start) :=
  nearest_findProjectWith files (Nat.lt_succ_self start.length)

end Config

end Depot
