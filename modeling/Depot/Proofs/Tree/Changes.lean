import Depot.Proofs.Tree.Lookup

/-!
# What the calls change

Making directories changes no file. Writing changes one file, also where it stops on the way, and
renaming two. None of them takes a directory away, closes or opens one, or puts anything into what is
no directory. So every file in another place is read as before.
-/

namespace Depot

namespace FileTree

variable {t t' t'' : FileTree} {path other : List String} {n : FileNode} {m : Refusals} {b : Bytes}

/-! ### Nodes -/

@[simp] theorem find?_nil : t.find? [] = some .directory := if_pos rfl

theorem lookup_others {α : Type} (entries : List (List String × α)) (path other : List String) :
    (entries.filter (·.1 ≠ path)).lookup other =
      if other = path then none else entries.lookup other := by
  rw [lookup_filter_key (fun q => decide (q ≠ path))]
  by_cases here : other = path <;> simp [here]

theorem find?_set (h : path ≠ []) (n : FileNode) (m : Refusals) :
    (t.set path n m).find? other = if other = path then some n else t.find? other := by
  by_cases top : other = []
  · simp [top, h.symm]
  · simp only [find?, set, if_neg top, List.lookup_cons, lookup_others]
    by_cases here : other = path
    · simp [here]
    · simp only [beq_eq_false_iff_ne.mpr here, if_neg here]

theorem refusals_set (n : FileNode) (m : Refusals) :
    (t.set path n m).refusals other = if other = path then m else t.refusals other := by
  simp only [refusals, set, List.lookup_cons, lookup_others]
  by_cases here : other = path
  · simp [here]
  · simp only [beq_eq_false_iff_ne.mpr here, if_neg here]

theorem find?_erase (h : path ≠ []) :
    (t.erase path).find? other = if other = path then none else t.find? other := by
  by_cases top : other = []
  · simp [top, h.symm]
  · simp only [find?, erase, if_neg top, lookup_others]

theorem refusals_erase :
    (t.erase path).refusals other = if other = path then {} else t.refusals other := by
  simp only [refusals, erase, lookup_others]
  split <;> rfl

/-- Only a directory is closed. -/
theorem closed?_of_not_directory (h : t.find? path ≠ some .directory) : t.closed? path = none :=
  if_neg h

theorem closed?_congr (node : t'.find? path = t.find? path)
    (same : t'.refusals path = t.refusals path) : t'.closed? path = t.closed? path := by
  simp only [closed?, node, same]

/-! ### Changes -/

/-- What a call may have done when the files in some places are not what they were. -/
structure ChangesOnly (places : List (List String)) (t t' : FileTree) : Prop where
  current : t'.current = t.current
  directory : ∀ path, t.find? path = some .directory → t'.find? path = some .directory
  closed : ∀ path, t'.closed? path = t.closed? path
  file : ∀ path, path ∉ places → ∀ b m, t'.Holds path b m ↔ t.Holds path b m
  tree : t.IsTree → t'.IsTree

namespace ChangesOnly

variable {places more : List (List String)}

theorem refl (t : FileTree) : ChangesOnly places t t :=
  ⟨rfl, fun _ => id, fun _ => rfl, fun _ _ _ _ => Iff.rfl, id⟩

theorem trans (h : ChangesOnly places t t') (h' : ChangesOnly places t' t'') :
    ChangesOnly places t t'' where
  current := h'.current.trans h.current
  directory path there := h'.directory path (h.directory path there)
  closed path := (h'.closed path).trans (h.closed path)
  file path apart b m := (h'.file path apart b m).trans (h.file path apart b m)
  tree := h'.tree ∘ h.tree

theorem mono (h : ChangesOnly places t t') (sub : places ⊆ more) : ChangesOnly more t t' :=
  { h with file := fun path apart => h.file path fun mem => apart (sub mem) }

/-- A place can be left out if the same file is in it. -/
theorem leave_out (h : ChangesOnly (path :: places) t t')
    (same : ∀ b m, t'.Holds path b m ↔ t.Holds path b m) :
    ChangesOnly places t t' :=
  { h with
    file := fun other apart b m => by
      by_cases here : other = path
      · rw [here]
        exact same b m
      · exact h.file other (by simp [here, apart]) b m }

/-- A directory is still where its path leads. -/
theorem entry (h : ChangesOnly places t t') {root : String} {r : List String}
    (rooted : t.entry root = .ok (r, .directory)) : t'.entry root = .ok (r, .directory) := by
  obtain ⟨located, there⟩ := entry_eq_ok.mp rooted
  obtain ⟨_, checked, walked⟩ := exists_ok_of_bind located
  have along := walk_along h.directory h.closed walked there []
  rw [List.append_nil] at along
  have same : t'.base root = t.base root := by simp only [base, h.current]
  refine entry_eq_ok.mpr ⟨?_, h.directory r there⟩
  rw [locate, checked, same]
  exact along

theorem absent (h : ChangesOnly places t t') (apart : path ∉ places) (gone : t'.find? path = none) :
    t.find? path = none := by
  cases found : t.find? path with
  | none => rfl
  | some n =>
    cases n with
    | directory =>
      rw [h.directory path found] at gone
      cases gone
    | file b =>
      have there := ((h.file path apart b _).mpr ⟨found, rfl⟩).1
      rw [gone] at there
      cases there

theorem opens_iff (h : ChangesOnly places t t') {here names : List String} :
    t'.Opens here names ↔ t.Opens here names :=
  opens_congr h.closed

end ChangesOnly

variable {dir : List String} {name : String}

/-- A node is given to a directory, where no directory is. If it is one, it is open. -/
theorem changesOnly_set (inside : t.find? dir = some .directory)
    (free : t.find? (dir ++ [name]) ≠ some .directory) (n : FileNode) (m : Refusals)
    (opened : n = .directory → m.search = none) :
    ChangesOnly [dir ++ [name]] t (t.set (dir ++ [name]) n m) where
  current := rfl
  directory path there := by
    have apart : path ≠ dir ++ [name] := fun here => free (here ▸ there)
    rw [find?_set (by simp), if_neg apart, there]
  closed path := by
    by_cases here : path = dir ++ [name]
    · rw [here, closed?_of_not_directory free, closed?, find?_set (by simp), refusals_set]
      simpa using opened
    · exact closed?_congr (by rw [find?_set (by simp), if_neg here])
        (by rw [refusals_set, if_neg here])
  file path apart b m' := by
    have elsewhere : path ≠ dir ++ [name] := by simpa using apart
    rw [Holds, Holds, find?_set (by simp), refusals_set, if_neg elsewhere, if_neg elsewhere]
  tree tree path last node found := by
    have above : t.find? path = some .directory := by
      rw [find?_set (by simp)] at found
      split at found
      · rename_i here
        rw [(List.append_inj' here rfl).1, inside]
      · exact tree path last node found
    have apart : path ≠ dir ++ [name] := fun here => free (here ▸ above)
    rw [find?_set (by simp), if_neg apart, above]

/-- A file is taken away. -/
theorem changesOnly_erase (there : t.find? path = some (.file b)) :
    ChangesOnly [path] t (t.erase path) := by
  have deep : path ≠ [] := by
    rintro rfl
    simp at there
  have apart : ∀ {other}, t.find? other = some .directory → other ≠ path := by
    rintro other directory rfl
    rw [there] at directory
    cases directory
  constructor
  case current => rfl
  case directory =>
    intro other directory
    rw [find?_erase deep, if_neg (apart directory), directory]
  case closed =>
    intro other
    by_cases here : other = path
    · have before : t.closed? path = none := closed?_of_not_directory (by simp [there])
      have after : (t.erase path).closed? path = none :=
        closed?_of_not_directory (by simp [find?_erase deep])
      rw [here, before, after]
    · exact closed?_congr (by rw [find?_erase deep, if_neg here])
        (by rw [refusals_erase, if_neg here])
  case file =>
    intro other elsewhere b m
    have apart : other ≠ path := by simpa using elsewhere
    rw [Holds, Holds, find?_erase deep, refusals_erase, if_neg apart, if_neg apart]
  case tree =>
    intro tree above last n found
    rw [find?_erase deep] at found
    split at found
    · cases found
    · have directory := tree above last n found
      rw [find?_erase deep, if_neg (apart directory), directory]

/-! ### Calls -/

/-- Steps that stop under a condition go on only without it. -/
theorem ok_of_guard {ε α : Type} {p : Prop} [Decidable p] {e : ε} {f : Unit → Except ε α} {a : α}
    (h : (if p then throw e >>= f else f ()) = .ok a) : ¬ p ∧ f () = .ok a := by
  split at h
  · cases h
  · exact ⟨by assumption, h⟩

theorem checkName_eq_ok {p : LastName} : checkName p = .ok () ↔ p.name.utf8ByteSize ≤ maxName := by
  unfold checkName
  split
  · simpa using Nat.not_le.mpr ‹_›
  · simpa using Nat.le_of_not_gt ‹_›

theorem makeDir_changes {p : String} (h : t.makeDir p = .ok t') : ChangesOnly [] t t' := by
  obtain ⟨new, at_end, h⟩ := exists_ok_of_bind h
  obtain ⟨-, -, inside, -⟩ := lastName_eq_ok at_end
  obtain ⟨-, h⟩ := ok_of_guard h
  obtain ⟨_, -, h⟩ := exists_ok_of_bind h
  obtain ⟨absent, h⟩ := ok_of_guard h
  obtain ⟨_, -, h⟩ := exists_ok_of_bind h
  cases h
  have free : t.find? new.path = none := by simpa using absent
  refine (changesOnly_set inside (by rw [← LastName.path, free]; simp) .directory {}
    fun _ => rfl).leave_out ?_
  intro b m
  rw [Holds, Holds, find?_set (by simp), if_pos rfl, ← LastName.path, free]
  simp

/-- Directories are made one after the other, also when not all of them can be. -/
theorem makeDirsWith_changes (fuel : Nat) (t : FileTree) (p : String) :
    ChangesOnly [] t (makeDirsWith fuel t p).2 := by
  fun_induction makeDirsWith fuel t p with
  | case1 => exact .refl _
  | case2 => exact .refl _
  | case3 fuel t p _ t' made => exact makeDir_changes made
  | case4 => exact .refl _
  | case5 fuel t p _ _ q _ e t' above ih =>
    rw [above] at ih
    exact ih
  | case6 fuel t p _ _ q _ t' above t'' made ih =>
    rw [above] at ih
    exact ih.trans (makeDir_changes made)
  | case7 fuel t p _ _ q _ t' above e _ ih =>
    rw [above] at ih
    exact ih
  | case8 => exact .refl _

/-- A file has been opened for writing and filled with some bytes. Nothing is refused of a new one,
and of an old one what was. -/
structure Fills (path : List String) (b : Bytes) (m : Refusals) (t t' : FileTree) : Prop where
  changes : ChangesOnly [path] t t'
  holds : t'.Holds path b m
  refused : (t.find? path = none ∧ m = {}) ∨ ∃ x, t.Holds path x m

namespace Fills

/-- Calls that come before and do not change the file make no difference. -/
theorem after (made : ChangesOnly [] t t') (h : Fills path b m t' t'') : Fills path b m t t'' where
  changes := (made.mono (by simp)).trans h.changes
  holds := h.holds
  refused := h.refused.imp (fun new => ⟨made.absent (by simp) new.1, new.2⟩)
    fun ⟨x, old⟩ => ⟨x, (made.file path (by simp) x m).mp old⟩

/-- A file that cannot be read now could not be read before. -/
theorem readable_or (h : Fills path b m t t') :
    m.read = none ∨ ∃ why x, m.read = some why ∧ t.Holds path x m := by
  obtain ⟨-, rfl⟩ | ⟨x, old⟩ := h.refused
  · exact .inl rfl
  · cases refused : m.read with
    | none => exact .inl rfl
    | some why => exact .inr ⟨why, x, rfl, old⟩

end Fills

theorem openFile_eq_ok {p : String} {new : LastName} (h : t.openFile p = .ok (new, m)) :
    t.lastName p = .ok new ∧ new.name.utf8ByteSize ≤ maxName ∧
      ∀ b, Fills new.path b m t (t.set new.path (.file b) m) := by
  obtain ⟨new', at_end, h⟩ := exists_ok_of_bind h
  obtain ⟨-, h⟩ := ok_of_guard h
  obtain ⟨_, short, h⟩ := exists_ok_of_bind h
  have filled : ∀ {q : LastName}, t.lastName p = .ok q → t.find? q.path ≠ some .directory →
      ((t.find? q.path = none ∧ m = {}) ∨ ∃ x, t.Holds q.path x m) →
      ∀ b, Fills q.path b m t (t.set q.path (.file b) m) := by
    intro q found free refused b
    obtain ⟨-, -, inside, -⟩ := lastName_eq_ok found
    refine ⟨changesOnly_set inside free _ _ nofun, ⟨?_, ?_⟩, refused⟩
    · rw [LastName.path, find?_set (by simp), if_pos rfl]
    · rw [refusals_set, if_pos rfl]
  split at h
  · cases h
  · rename_i x there
    obtain ⟨_, -, h⟩ := exists_ok_of_bind h
    cases h
    exact ⟨at_end, checkName_eq_ok.mp short, filled at_end (by simp [there]) (.inr ⟨x, there, rfl⟩)⟩
  · rename_i absent
    obtain ⟨_, -, h⟩ := exists_ok_of_bind h
    cases h
    exact ⟨at_end, checkName_eq_ok.mp short, filled at_end (by simp [absent]) (.inl ⟨absent, rfl⟩)⟩

theorem write_changes {p : String} (h : t.write p b = .ok t') :
    ∃ new m, t.lastName p = .ok new ∧ new.name.utf8ByteSize ≤ maxName ∧
      Fills new.path b m t t' := by
  unfold write at h
  split at h
  · cases h
  · rename_i new m opened
    obtain ⟨at_end, short, filled⟩ := openFile_eq_ok opened
    split at h
    · cases h
    · cases h
      exact ⟨new, m, at_end, short, filled b⟩

/-- A write that fails has done nothing, or it has filled the file with the first bytes. -/
theorem write_stops {p : String} {stopped : Stopped} (h : t.write p b = .error stopped) :
    stopped.left = t ∨ ∃ new m x, t.lastName p = .ok new ∧ new.name.utf8ByteSize ≤ maxName ∧
      x <+: b ∧ Fills new.path x m t stopped.left := by
  unfold write at h
  split at h
  · cases h
    exact .inl rfl
  · rename_i new m opened
    obtain ⟨at_end, short, filled⟩ := openFile_eq_ok opened
    split at h
    · rename_i n why _
      cases h
      exact .inr ⟨new, m, b.take n, at_end, short, List.take_prefix n b, filled _⟩
    · cases h

/-- The file of the old name is in the new place, and in no other, and what is refused of it goes with
it. -/
theorem rename_changes {source target : String} (h : t.rename source target = .ok t') :
    ∃ old new b m, t.lastName source = .ok old ∧ t.lastName target = .ok new ∧
      new.name.utf8ByteSize ≤ maxName ∧ t.Holds old.path b m ∧
      ChangesOnly [new.path, old.path] t t' ∧ t'.Holds new.path b m ∧
      (old.path ≠ new.path → t'.find? old.path = none) := by
  obtain ⟨old, from_end, h⟩ := exists_ok_of_bind h
  obtain ⟨new, at_end, h⟩ := exists_ok_of_bind h
  obtain ⟨-, -, inside, -⟩ := lastName_eq_ok at_end
  obtain ⟨-, h⟩ := ok_of_guard h
  obtain ⟨_, -, h⟩ := exists_ok_of_bind h
  split at h
  · cases h
  · cases h
  · rename_i b there
    obtain ⟨_, short, h⟩ := exists_ok_of_bind h
    obtain ⟨-, h⟩ := ok_of_guard h
    obtain ⟨_, -, h⟩ := exists_ok_of_bind h
    obtain ⟨_, -, h⟩ := exists_ok_of_bind h
    obtain ⟨free, h⟩ := ok_of_guard h
    cases h
    have deep : ∀ q : LastName, q.path ≠ [] := fun q => by simp [LastName.path]
    have erased := changesOnly_erase there
    have still_free : (t.erase old.path).find? new.path ≠ some .directory := by
      rw [find?_erase (deep old)]
      split
      · simp
      · exact free
    have placed := changesOnly_set (erased.directory _ inside) still_free (.file b)
      (t.refusals old.path) nofun
    refine ⟨old, new, b, _, from_end, at_end, checkName_eq_ok.mp short, ⟨there, rfl⟩, ?_, ⟨?_, ?_⟩,
      fun apart => ?_⟩
    · exact (erased.mono (by simp)).trans (placed.mono (by simp [LastName.path]))
    · rw [find?_set (deep new), if_pos rfl]
    · rw [refusals_set, if_pos rfl]
    · rw [find?_set (deep new), if_neg apart, find?_erase (deep old), if_pos rfl]

/-! ### Calls on paths below a directory -/

section Below

variable {root : String} {r dir' : List String} {name' : String}

/-- The names of a path that is looked up all fit if the last one does, and there are no closed
directories along them. -/
theorem fits_of_lastName (rooted : t.entry root = .ok (r, .directory))
    (segments : ∀ s ∈ dir ++ [name], IsPart s) {p : LastName}
    (h : t.lastName (below root dir name) = .ok p) (short : p.name.utf8ByteSize ≤ maxName) :
    p.path = r ++ (dir ++ [name]) ∧ Fits root dir name ∧ t.Opens r (dir ++ [name]) := by
  obtain ⟨rfl, checked, -, opened, fit⟩ := lastName_below rooted segments h
  refine ⟨List.append_assoc .., ⟨checked, fun s hs => ?_⟩, opened⟩
  rcases List.mem_append.mp hs with hs | hs
  · exact fit s hs
  · rw [List.mem_singleton.mp hs]
    exact short

/-- A file below a directory has been opened for writing and filled with some bytes. -/
structure Writes (root : String) (r dir : List String) (name : String) (b : Bytes) (m : Refusals)
    (t t' : FileTree) : Prop where
  fits : Fits root dir name
  opened : t.Opens r (dir ++ [name])
  fills : Fills (r ++ (dir ++ [name])) b m t t'

theorem Writes.after (made : ChangesOnly [] t t') (h : Writes root r dir name b m t' t'') :
    Writes root r dir name b m t t'' :=
  ⟨h.fits, made.opens_iff.mp h.opened, h.fills.after made⟩

theorem write_below (rooted : t.entry root = .ok (r, .directory))
    (segments : ∀ s ∈ dir ++ [name], IsPart s) (h : t.write (below root dir name) b = .ok t') :
    ∃ m, Writes root r dir name b m t t' := by
  obtain ⟨new, m, at_end, short, filled⟩ := write_changes h
  obtain ⟨same, fits, opened⟩ := fits_of_lastName rooted segments at_end short
  exact ⟨m, fits, opened, same ▸ filled⟩

theorem write_stops_below (rooted : t.entry root = .ok (r, .directory))
    (segments : ∀ s ∈ dir ++ [name], IsPart s) {stopped : Stopped}
    (h : t.write (below root dir name) b = .error stopped) :
    stopped.left = t ∨ ∃ m x, x <+: b ∧ Writes root r dir name x m t stopped.left := by
  obtain unchanged | ⟨new, m, x, at_end, short, first, filled⟩ := write_stops h
  · exact .inl unchanged
  · obtain ⟨same, fits, opened⟩ := fits_of_lastName rooted segments at_end short
    exact .inr ⟨m, x, first, fits, opened, same ▸ filled⟩

theorem rename_below (rooted : t.entry root = .ok (r, .directory))
    (segments : ∀ s ∈ dir ++ [name], IsPart s) (segments' : ∀ s ∈ dir' ++ [name'], IsPart s)
    (h : t.rename (below root dir name) (below root dir' name') = .ok t') :
    ∃ b m, t.Holds (r ++ (dir ++ [name])) b m ∧ Fits root dir' name' ∧
      t.Opens r (dir' ++ [name']) ∧ ChangesOnly [r ++ (dir' ++ [name']), r ++ (dir ++ [name])] t t' ∧
      t'.Holds (r ++ (dir' ++ [name'])) b m ∧
      (dir ++ [name] ≠ dir' ++ [name'] → t'.find? (r ++ (dir ++ [name])) = none) := by
  obtain ⟨old, new, b, m, from_end, at_end, short, there, changes, placed, gone⟩ := rename_changes h
  obtain ⟨same, fits, opened⟩ := fits_of_lastName rooted segments' at_end short
  have from_path : old.path = r ++ (dir ++ [name]) := by
    rw [(lastName_below rooted segments from_end).1, LastName.path, List.append_assoc]
  rw [from_path] at there changes gone
  rw [same] at changes placed gone
  exact ⟨b, m, there, fits, opened, changes, placed, fun apart => gone (by simpa using apart)⟩

end Below

end FileTree

end Depot
