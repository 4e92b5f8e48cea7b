import Mathlib.Data.List.Induction
import Depot.FileTree
import Depot.Proofs.Store.Manifests

/-!
# Following paths

A path that is joined to the path of a directory is followed from there: the names of the
directory lead to it, and those that come after lead down one level each. In a tree they lead to
a file exactly if there is one with these names, and no directory on the way refuses to look them
up.
-/

namespace Depot

open Text

/-! ### Names along a path -/

namespace Path

/-- The names along a path. Slashes may follow one another. -/
def names (p : String) : List String := (split '/' p).filter (· ≠ "")

variable {base s : String}

theorem split_cut {a b p : String} (h : p.toList = a.toList ++ '/' :: b.toList) :
    split '/' p = split '/' a ++ split '/' b := by
  rw [split, h, List.splitOn_append_cons_self, List.map_append]
  rfl

theorem split_segment (h : IsSegment s) : split '/' s = [s] := by
  rw [split, List.splitOn_eq_singleton h.no_slash]
  simp

theorem not_isAbsolute (h : IsSegment s) : isAbsolute s = false := by
  refine Bool.eq_false_iff.mpr fun absolute => h.no_slash ?_
  obtain ⟨rest, whole⟩ := List.isPrefixOf_iff_prefix.mp absolute
  rw [← whole]
  exact List.mem_append_left rest (List.mem_singleton_self '/')

theorem isAbsolute_append {a : String} (h : a ≠ "") (b : String) :
    isAbsolute (a ++ b) = isAbsolute a := by
  obtain ⟨c, cs, first⟩ := List.exists_cons_of_ne_nil (mt String.toList_eq_nil_iff.mp h)
  simp [isAbsolute, startsWith, first, List.isPrefixOf]

/-- A segment ends a joined path, and only slashes set it off. -/
theorem split_join (base : String) (h : IsSegment s) :
    ∃ before, split '/' (join base s) = before ++ [s] ∧ before.filter (· ≠ "") = names base := by
  by_cases none : base = ""
  · refine ⟨[], ?_, by rw [none]; rfl⟩
    simp [join, not_isAbsolute h, none, split_segment h]
  · by_cases slash : endsWith base "/" = true
    · obtain ⟨cs, whole⟩ := List.isSuffixOf_iff_suffix.mp slash
      have base_cut : split '/' base = split '/' (String.ofList cs) ++ split '/' "" :=
        split_cut (by simp [← whole])
      have path_cut : split '/' (base ++ s) = split '/' (String.ofList cs) ++ split '/' s :=
        split_cut (by simp [← whole])
      refine ⟨split '/' (String.ofList cs), ?_, ?_⟩
      · simp [join, not_isAbsolute h, none, slash, path_cut, split_segment h]
      · simp [names, base_cut, show split '/' "" = [""] from rfl]
    · refine ⟨split '/' base, ?_, rfl⟩
      have path_cut : split '/' (base ++ "/" ++ s) = split '/' base ++ split '/' s :=
        split_cut (by simp)
      simp [join, not_isAbsolute h, none, slash, path_cut, split_segment h]

theorem names_join (h : IsSegment s) : names (join base s) = names base ++ [s] := by
  obtain ⟨before, pieces, same⟩ := split_join base h
  rw [names, pieces, List.filter_append, same]
  simp [h.nonempty]

/-- A path whose last piece is not empty does not end in a slash. -/
theorem not_endsWith_slash {p : String} {before : List String} (pieces : split '/' p = before ++ [s])
    (named : s ≠ "") : endsWith p "/" = false := by
  refine Bool.eq_false_iff.mpr fun slash => named ?_
  obtain ⟨cs, whole⟩ := List.isSuffixOf_iff_suffix.mp slash
  have cut : split '/' p = split '/' (String.ofList cs) ++ split '/' "" :=
    split_cut (by simp [← whole])
  exact List.singleton_inj.mp (List.append_inj' (pieces.symm.trans cut) rfl).2

theorem isAbsolute_join (h : IsSegment s) : isAbsolute (join base s) = isAbsolute base := by
  unfold join
  simp only [not_isAbsolute h, Bool.false_or, decide_eq_true_eq]
  split
  · rename_i none
    rw [none, not_isAbsolute h]
    rfl
  · rename_i some
    split
    · exact isAbsolute_append some s
    · rw [String.append_assoc]
      exact isAbsolute_append some ("/" ++ s)

/-- Joining keeps what the joined path ends with. -/
theorem join_append (h : IsSegment s) (t : String) : join base (s ++ t) = join base s ++ t := by
  unfold join
  rw [isAbsolute_append h.nonempty]
  split
  · rfl
  · split <;> simp only [String.append_assoc]

theorem names_joinAll (base : String) {segments : List String} (h : ∀ s ∈ segments, IsSegment s) :
    names (segments.foldl join base) = names base ++ segments := by
  induction segments generalizing base with
  | nil => simp
  | cons s rest ih =>
    rw [List.foldl_cons, ih _ fun t ht => h t (List.mem_cons_of_mem s ht),
      names_join (h s List.mem_cons_self), List.append_assoc, List.singleton_append]

theorem isAbsolute_joinAll (base : String) {segments : List String} (h : ∀ s ∈ segments, IsSegment s) :
    isAbsolute (segments.foldl join base) = isAbsolute base := by
  induction segments generalizing base with
  | nil => rfl
  | cons s rest ih =>
    rw [List.foldl_cons, ih _ fun t ht => h t (List.mem_cons_of_mem s ht),
      isAbsolute_join (h s List.mem_cons_self)]

end Path

/-! ### Walks -/

/-- A name that leads one level down: it is there, and it is neither of the two that stand for a
directory. -/
structure IsName (s : String) : Prop where
  nonempty : s ≠ ""
  not_relative : s ≠ "." ∧ s ≠ ".."

theorem IsPart.isName {s : String} (h : IsPart s) : IsName s := ⟨h.nonempty, h.not_relative⟩

namespace FileTree

variable {t t' : FileTree} {here there : List String} {names : List String} {name : String}

theorem walk_empty (rest : List String) : t.walk here ("" :: rest) = t.walk here rest := by
  rw [walk, if_pos rfl]

theorem walk_closed {why : Refusal} (some : name ≠ "") (closed : t.closed? here = .some why)
    (rest : List String) : t.walk here (name :: rest) = .error (.refused why) := by
  rw [walk, if_neg some]
  simp only [closed]

theorem walk_dot (opened : t.closed? here = none) (rest : List String) :
    t.walk here ("." :: rest) = t.walk here rest := by
  rw [walk, if_neg (by decide)]
  simp only [opened, if_true]

theorem walk_up (opened : t.closed? here = none) (rest : List String) :
    t.walk here (".." :: rest) = t.walk here.dropLast rest := by
  rw [walk, if_neg (by decide)]
  simp only [opened, if_neg (show ".." ≠ "." by decide), if_true]

theorem walk_name (named : IsName name) (opened : t.closed? here = none)
    (short : ¬ name.utf8ByteSize > maxName) (rest : List String) :
    t.walk here (name :: rest) = match t.find? (here ++ [name]) with
      | some .directory => t.walk (here ++ [name]) rest
      | some (.file _) => if rest.isEmpty then .ok (here ++ [name]) else .error .notDirectory
      | none => .error .noEntry := by
  rw [walk, if_neg named.nonempty]
  rcases found : t.find? (here ++ [name]) with _ | _ | _ <;>
    simp only [opened, if_neg named.not_relative.1, if_neg named.not_relative.2, if_neg short,
      found]

theorem walk_down (named : IsName name) (opened : t.closed? here = none)
    (short : ¬ name.utf8ByteSize > maxName) (found : t.find? (here ++ [name]) = some .directory)
    (rest : List String) : t.walk here (name :: rest) = t.walk (here ++ [name]) rest := by
  rw [walk_name named opened short, found]

/-- A walk to a directory may leave out empty names and can be continued, in this tree or in another
one that has the same directories and maybe more. -/
theorem walk_directory {f : String → Bool} (kept : ∀ s, s ≠ "" → f s = true)
    (same : ∀ path, t.find? path = some .directory → t'.find? path = some .directory)
    (closed : ∀ path, t'.closed? path = t.closed? path)
    (h : t.walk here names = .ok there) (hd : t.find? there = some .directory)
    (more : List String) :
    t'.walk here (names.filter f ++ more) = t'.walk there more := by
  fun_induction walk t here names with
  | case1 =>
    cases h
    rfl
  | case2 here rest ih =>
    by_cases left : f "" = true
    · rw [List.filter_cons_of_pos left, List.cons_append, walk_empty]
      exact ih h
    · rw [List.filter_cons_of_neg left]
      exact ih h
  | case3 => cases h
  | case4 here rest opened _ ih =>
    rw [List.filter_cons_of_pos (kept "." (by decide)), List.cons_append,
      walk_dot ((closed here).trans opened)]
    exact ih h
  | case5 here rest opened _ _ ih =>
    rw [List.filter_cons_of_pos (kept ".." (by decide)), List.cons_append,
      walk_up ((closed here).trans opened)]
    exact ih h
  | case6 => cases h
  | case7 here name rest some opened here_not up_not short there' found ih =>
    rw [List.filter_cons_of_pos (kept name some), List.cons_append,
      walk_down ⟨some, here_not, up_not⟩ ((closed here).trans opened) short (same _ found)]
    exact ih h
  | case8 here name rest some opened here_not up_not short there' b found last =>
    -- the walk ends at a file
    obtain rfl : there' = there := Except.ok.inj h
    rw [found] at hd
    cases hd
  | case9 => cases h
  | case10 => cases h

theorem walk_along (same : ∀ path, t.find? path = some .directory → t'.find? path = some .directory)
    (closed : ∀ path, t'.closed? path = t.closed? path) (h : t.walk here names = .ok there)
    (hd : t.find? there = some .directory) (more : List String) :
    t'.walk here (names ++ more) = t'.walk there more := by
  have whole := walk_directory (f := fun _ => true) (fun _ _ => rfl) same closed h hd more
  rwa [List.filter_eq_self.mpr fun _ _ => rfl] at whole

theorem walk_append (h : t.walk here names = .ok there) (hd : t.find? there = some .directory)
    (more : List String) : t.walk here (names ++ more) = t.walk there more :=
  walk_along (fun _ => id) (fun _ => rfl) h hd more

/-- Of a walk that ends with a name, only the nonempty names count. -/
theorem walk_filter (name : String) :
    t.walk here (names ++ [name]) = t.walk here (names.filter (· ≠ "") ++ [name]) := by
  have goes_on : ∀ rest : List String, (rest ++ [name]).isEmpty = false := by simp
  induction names generalizing here with
  | nil => rfl
  | cons s rest ih =>
    by_cases none : s = ""
    · rw [none, List.cons_append, walk_empty, ih]
      rfl
    · rw [List.filter_cons_of_pos (by simpa using none), List.cons_append, List.cons_append, walk,
        walk]
      simp only [ih, goes_on]

/-- Each name can be looked up in the directory that the names before it lead down to. -/
def Opens (t : FileTree) : List String → List String → Prop
  | _, [] => True
  | here, name :: rest => t.closed? here = none ∧ t.Opens (here ++ [name]) rest

@[simp] theorem opens_nil : t.Opens here [] := trivial

@[simp] theorem opens_cons {rest : List String} :
    t.Opens here (name :: rest) ↔ t.closed? here = none ∧ t.Opens (here ++ [name]) rest := Iff.rfl

theorem opens_concat :
    t.Opens here (names ++ [name]) ↔ t.Opens here names ∧ t.closed? (here ++ names) = none := by
  induction names generalizing here with
  | nil => simp
  | cons s rest ih => simp [ih, and_assoc]

theorem opens_congr (closed : ∀ path, t'.closed? path = t.closed? path) :
    t'.Opens here names ↔ t.Opens here names := by
  induction names generalizing here with
  | nil => simp
  | cons s rest ih => simp [ih, closed]

/-! ### Trees -/

/-- Whatever lies somewhere lies in a directory. -/
def IsTree (t : FileTree) : Prop :=
  ∀ path name n, t.find? (path ++ [name]) = some n → t.find? path = some .directory

theorem isTree_of_nodes (h : ∀ n ∈ t.nodes, t.find? n.1.dropLast = some .directory) :
    t.IsTree := by
  intro path name n found
  rw [find?, if_neg (by simp)] at found
  obtain ⟨before, after, listed, -⟩ := List.lookup_eq_some_iff.mp found
  have above := h (path ++ [name], n) (by simp [listed])
  rwa [List.dropLast_concat] at above

theorem IsTree.directory_above (tree : t.IsTree) {above below : List String} {n : FileNode}
    (found : t.find? (above ++ below) = some n) (h : below ≠ []) :
    t.find? above = some .directory := by
  induction below using List.reverseRecOn generalizing n with
  | nil => exact absurd rfl h
  | append_singleton below name ih =>
    rw [← List.append_assoc] at found
    have inside := tree _ _ _ found
    by_cases last : below = []
    · rwa [last, List.append_nil] at inside
    · exact ih inside last

/-- A walk along names leads down, one level each. -/
theorem walk_names (named : ∀ s ∈ names, IsName s) (h : t.walk here names = .ok there) :
    there = here ++ names ∧ t.Opens here names ∧ ∀ s ∈ names, s.utf8ByteSize ≤ maxName := by
  fun_induction walk t here names with
  | case1 =>
    cases h
    simp
  | case2 here rest ih => exact absurd rfl (named "" List.mem_cons_self).nonempty
  | case3 => cases h
  | case4 here rest _ _ ih => exact absurd rfl (named "." List.mem_cons_self).not_relative.1
  | case5 here rest _ _ _ ih => exact absurd rfl (named ".." List.mem_cons_self).not_relative.2
  | case6 => cases h
  | case7 here name rest _ opened _ _ short there' found ih =>
    obtain ⟨down, open_below, fit⟩ := ih (fun s hs => named s (List.mem_cons_of_mem name hs)) h
    refine ⟨by simp [down, there'], ⟨opened, open_below⟩, ?_⟩
    rintro s (_ | ⟨_, hs⟩)
    · exact Nat.le_of_not_gt short
    · exact fit s hs
  | case8 here name rest _ opened _ _ short there' b found last =>
    obtain rfl : there' = there := Except.ok.inj h
    simp [List.isEmpty_iff.mp last, there', opened, Nat.le_of_not_gt short]
  | case9 => cases h
  | case10 => cases h

/-- In a tree, what lies somewhere is found along its names, if they can be looked up. -/
theorem IsTree.walk_found (tree : t.IsTree) {n : FileNode} (named : ∀ s ∈ names, IsName s)
    (fit : ∀ s ∈ names, s.utf8ByteSize ≤ maxName) (opened : t.Opens here names)
    (found : t.find? (here ++ names) = some n) : t.walk here names = .ok (here ++ names) := by
  induction names generalizing here with
  | nil => simp [walk]
  | cons name rest ih =>
    have first := named name List.mem_cons_self
    have short : ¬ name.utf8ByteSize > maxName := Nat.not_lt.mpr (fit name List.mem_cons_self)
    obtain ⟨here_open, below_open⟩ := opened
    rw [List.append_cons] at found ⊢
    by_cases last : rest = []
    · subst last
      rw [List.append_nil] at found ⊢
      rw [walk_name first here_open short, found]
      cases n <;> simp [walk]
    · rw [walk_down first here_open short (tree.directory_above found last)]
      exact ih (fun s hs => named s (List.mem_cons_of_mem name hs))
        (fun s hs => fit s (List.mem_cons_of_mem name hs)) below_open found

/-! ### Paths below a directory -/

/-- The path that leads from a directory along more directories to a name. -/
def below (root : String) (dir : List String) (name : String) : String :=
  Path.join (dir.foldl Path.join root) name

theorem entry_eq_ok {p : String} {path : List String} {n : FileNode} :
    t.entry p = .ok (path, n) ↔ t.locate p = .ok path ∧ t.find? path = some n := by
  unfold entry
  cases t.locate p with
  | error e => simp
  | ok there =>
    simp only [Except.ok.injEq]
    cases found : t.find? there with
    | none =>
      simp only [reduceCtorEq, false_iff, not_and]
      rintro rfl
      simp [found]
    | some m =>
      simp only [Except.ok.injEq, Prod.mk.injEq]
      refine and_congr_right ?_
      rintro rfl
      simp [found]

variable {root name : String} {r dir : List String}

theorem names_below (segments : ∀ s ∈ dir ++ [name], IsSegment s) :
    Path.names (below root dir name) = Path.names root ++ (dir ++ [name]) := by
  have whole := Path.names_joinAll root segments
  rwa [List.foldl_append] at whole

theorem base_below (segments : ∀ s ∈ dir ++ [name], IsSegment s) :
    t.base (below root dir name) = t.base root := by
  have whole := Path.isAbsolute_joinAll root segments
  rw [List.foldl_append] at whole
  simp only [base, below]
  rw [← whole]
  rfl

/-- A path below a directory is followed from that directory. -/
theorem locate_below (rooted : t.entry root = .ok (r, .directory))
    (segments : ∀ s ∈ dir ++ [name], IsSegment s) :
    t.locate (below root dir name) =
      (checkPath (below root dir name) >>= fun _ => t.walk r (dir ++ [name])) := by
  obtain ⟨located, there⟩ := entry_eq_ok.mp rooted
  obtain ⟨_, -, walked⟩ := exists_ok_of_bind located
  have dirs : ∀ s ∈ dir, IsSegment s := fun s hs => segments s (List.mem_append_left _ hs)
  have last : IsSegment name := segments name List.mem_concat_self
  obtain ⟨before, pieces, same⟩ := Path.split_join (dir.foldl Path.join root) last
  have along : before.filter (· ≠ "") = (split '/' root ++ dir).filter (· ≠ "") := by
    have whole : dir.filter (· ≠ "") = dir :=
      List.filter_eq_self.mpr fun s hs => by simpa using (dirs s hs).nonempty
    rw [same, Path.names_joinAll root dirs, List.filter_append, whole, Path.names]
  have walk_all : t.walk (t.base root) (split '/' (below root dir name)) = t.walk r (dir ++ [name]) :=
    calc
      t.walk (t.base root) (split '/' (below root dir name))
        = t.walk (t.base root) (before ++ [name]) := by rw [below, pieces]
      _ = t.walk (t.base root) (split '/' root ++ dir ++ [name]) := by
          rw [walk_filter, along, ← walk_filter]
      _ = t.walk r (dir ++ [name]) := by
          rw [List.append_assoc, walk_append walked there]
  unfold locate
  rw [base_below segments, walk_all]

theorem allow_eq_ok {refused : Option Refusal} : allow refused = .ok () ↔ refused = none := by
  cases refused <;> simp [allow]

/-- What is known of a last name that is found. -/
theorem lastName_eq_ok {p : String} {q : LastName} (h : t.lastName p = .ok q) :
    checkPath p = .ok () ∧ t.walk (t.base p) (Path.names p).dropLast = .ok q.directory ∧
      t.find? q.directory = some .directory ∧ q.name = (Path.names p).getLastD "" ∧
      q.slash = endsWith p "/" ∧ (Path.names p ≠ [] → t.closed? q.directory = none) := by
  obtain ⟨_, checked, h⟩ := exists_ok_of_bind h
  obtain ⟨d, reached, h⟩ := exists_ok_of_bind h
  split at h
  · rename_i inside
    split at h
    · rename_i top
      have none : Path.names p = [] := List.getLast?_eq_none_iff.mp top
      cases h
      exact ⟨checked, reached, inside, by simp [none], rfl, fun some => absurd none some⟩
    · rename_i name last
      obtain ⟨_, opened, h⟩ := exists_ok_of_bind h
      cases h
      refine ⟨checked, reached, inside, ?_, rfl, fun _ => allow_eq_ok.mp opened⟩
      rw [List.getLastD_eq_getLast?, Path.names, last, Option.getD_some]
  · cases h

/-- Looking up where a name is to be given leads to its directory. -/
theorem lastName_below (rooted : t.entry root = .ok (r, .directory))
    (segments : ∀ s ∈ dir ++ [name], IsPart s) {p : LastName}
    (h : t.lastName (below root dir name) = .ok p) :
    p = ⟨r ++ dir, name, false⟩ ∧ checkPath (below root dir name) = .ok () ∧
      t.find? (r ++ dir) = some .directory ∧ t.Opens r (dir ++ [name]) ∧
      ∀ s ∈ dir, s.utf8ByteSize ≤ maxName := by
  obtain ⟨located, there⟩ := entry_eq_ok.mp rooted
  obtain ⟨_, -, walked⟩ := exists_ok_of_bind located
  have parts : ∀ s ∈ dir ++ [name], IsSegment s := fun s hs => .of_part (segments s hs)
  have last : IsSegment name := parts name List.mem_concat_self
  obtain ⟨checked, reached, inside, called, slash, opened⟩ := lastName_eq_ok h
  have down : t.walk r dir = .ok p.directory := by
    rw [base_below parts, names_below parts, ← List.append_assoc, List.dropLast_concat,
      Path.names] at reached
    rwa [walk_directory (f := (· ≠ "")) (by simp) (fun _ => id) (fun _ => rfl) walked there]
      at reached
  obtain ⟨at_end, open_above, fit⟩ := walk_names
    (fun s hs => (segments s (List.mem_append_left _ hs)).isName) down
  rw [names_below parts, ← List.append_assoc, List.getLastD_concat] at called
  have open_there := opened (by rw [names_below parts]; simp)
  refine ⟨?_, checked, at_end ▸ inside, opens_concat.mpr ⟨open_above, at_end ▸ open_there⟩, fit⟩
  obtain ⟨d, n, sl⟩ := p
  simp only at at_end called slash
  obtain ⟨before, pieces, -⟩ := Path.split_join (dir.foldl Path.join root) last
  rw [at_end, called, slash, below, Path.not_endsWith_slash pieces last.nonempty]

/-- A file with these bytes lies in a place, and this is refused there. -/
def Holds (t : FileTree) (path : List String) (b : Bytes) (m : Refusals) : Prop :=
  t.find? path = some (.file b) ∧ t.refusals path = m

/-- What no lookup can do without: the path is a proper one and no name is too long. -/
def Fits (root : String) (dir : List String) (name : String) : Prop :=
  checkPath (below root dir name) = .ok () ∧ ∀ s ∈ dir ++ [name], s.utf8ByteSize ≤ maxName

/-- In a tree, what lies below a directory is found along its names. -/
theorem IsTree.entry_below (tree : t.IsTree) (rooted : t.entry root = .ok (r, .directory))
    (segments : ∀ s ∈ dir ++ [name], IsPart s) {path : List String} {n : FileNode} :
    t.entry (below root dir name) = .ok (path, n) ↔ path = r ++ (dir ++ [name]) ∧
      Fits root dir name ∧ t.Opens r (dir ++ [name]) ∧ t.find? path = some n := by
  have located := locate_below rooted fun s hs => .of_part (segments s hs)
  have named : ∀ s ∈ dir ++ [name], IsName s := fun s hs => (segments s hs).isName
  rw [entry_eq_ok, located]
  constructor
  · rintro ⟨reached, found⟩
    obtain ⟨_, checked, walked⟩ := exists_ok_of_bind reached
    obtain ⟨rfl, opened, fit⟩ := walk_names named walked
    exact ⟨rfl, ⟨checked, fit⟩, opened, found⟩
  · rintro ⟨rfl, ⟨checked, fit⟩, opened, found⟩
    refine ⟨?_, found⟩
    rw [checked]
    exact tree.walk_found named fit opened found

theorem read_eq_ok {p : String} {b : Bytes} :
    t.read p = .ok b ↔ ∃ path m, t.entry p = .ok (path, .file b) ∧ t.refusals path = m ∧
      m.read = none := by
  unfold read
  cases t.entry p with
  | error e => simp
  | ok found =>
    obtain ⟨path, n⟩ := found
    cases refused : (t.refusals path).read <;> cases n <;> simp [refused]

/-- In a tree, a file is read along its names, unless that is refused. -/
theorem IsTree.read_below (tree : t.IsTree) (rooted : t.entry root = .ok (r, .directory))
    (segments : ∀ s ∈ dir ++ [name], IsPart s) {b : Bytes} :
    t.read (below root dir name) = .ok b ↔ Fits root dir name ∧ t.Opens r (dir ++ [name]) ∧
      ∃ m, t.Holds (r ++ (dir ++ [name])) b m ∧ m.read = none := by
  rw [read_eq_ok]
  constructor
  · rintro ⟨path, m, there, refused, readable⟩
    obtain ⟨rfl, fits, opened, found⟩ := (tree.entry_below rooted segments).mp there
    exact ⟨fits, opened, m, ⟨found, refused⟩, readable⟩
  · rintro ⟨fits, opened, m, ⟨found, refused⟩, readable⟩
    exact ⟨_, m, (tree.entry_below rooted segments).mpr ⟨rfl, fits, opened, found⟩, refused,
      readable⟩

theorem IsTree.read_refused (tree : t.IsTree) (rooted : t.entry root = .ok (r, .directory))
    (segments : ∀ s ∈ dir ++ [name], IsPart s) (fits : Fits root dir name)
    (opened : t.Opens r (dir ++ [name])) {b : Bytes} {m : Refusals}
    (there : t.Holds (r ++ (dir ++ [name])) b m) {why : Refusal} (refused : m.read = some why) :
    t.read (below root dir name) = .error (.refused why) := by
  obtain ⟨found, rfl⟩ := there
  unfold read
  rw [(tree.entry_below rooted segments).mpr ⟨rfl, fits, opened, found⟩]
  simp only [refused]

end FileTree

end Depot
