import Depot.CommandLine.Arguments
import Depot.Proofs.Store.Manifests

/-!
# Reading arguments

Whatever the arguments are, an invocation that is read from them has no empty path: every flag is
taken by the same step, which looks at its value. The other way round, an option whose value comes
after an equals sign is read as it is given, whatever the value is, and so are any number of them in
front of two dashes and the words of the command. A value that is an argument of its own must not
look like an option.
-/

namespace Depot.CommandLine

open Text

variable {level : Option CommandName} {name : CommandName} {flags : List Flag}
  {g g' : Given} {f : Flag} {v w s : String}

/-! ### Paths are not empty -/

namespace Given

/-- No path that was given is empty. -/
def HasPaths (g : Given) : Prop := ∀ p ∈ g.flags, p.1.isPath = true → p.2 ≠ ""

theorem hasPaths_empty : empty.HasPaths := by simp [HasPaths, empty]

theorem HasPaths.take (h : g.HasPaths) (taken : g.take f v = .ok g') : g'.HasPaths := by
  unfold Given.take at taken
  split at taken
  · cases taken
  split at taken
  · cases taken
  · rename_i proper
    cases taken
    intro p hp path
    rcases List.mem_append.mp hp with old | new
    · exact h p old path
    · obtain rfl := List.mem_singleton.mp new
      rintro (rfl : v = "")
      exact proper (by simpa using path)

theorem HasPaths.settle (h : g.HasPaths) (settled : g.settle = .ok g') : g'.HasPaths := by
  unfold Given.settle at settled
  split at settled
  · cases settled
    exact h
  · exact HasPaths.take (g := { g with pending := none }) h settled

theorem HasPaths.add (h : g.HasPaths) (added : g.add level f v = .ok g') : g'.HasPaths := by
  obtain ⟨between, settled, added⟩ := exists_ok_of_bind added
  have kept := h.settle settled
  cases f with
  | version | help | summary => cases added
  | root | config | scope | json | kind | signature => exact kept.take added

theorem HasPaths.addWord (h : g.HasPaths) (added : g.addWord name w = .ok g') : g'.HasPaths := by
  unfold Given.addWord at added
  split at added
  · cases added
  split at added
  · cases added
  · cases added
    exact h

theorem HasPaths.foldlM_addWord {ws : List String} (h : g.HasPaths)
    (added : ws.foldlM (Given.addWord name) g = .ok g') : g'.HasPaths := by
  induction ws generalizing g with
  | nil =>
    cases added
    exact h
  | cons w ws ih =>
    obtain ⟨between, now, later⟩ := exists_ok_of_bind added
    exact ih (h.addWord now) later

theorem HasPaths.value? (h : g.HasPaths) (path : f.isPath = true) : g.value? f ≠ some "" := by
  intro found
  obtain ⟨before, after, same, -⟩ := List.lookup_eq_some_iff.mp found
  exact h (f, "") (by simp [same]) path rfl

end Given

open Given (HasPaths)

theorem hasPaths_long {d : Dashed} (h : g.HasPaths) (read : long level flags g s = .ok d) :
    d.given.HasPaths := by
  unfold long at read
  obtain ⟨n, value⟩ := splitLong s
  dsimp only at read
  split at read
  · cases read
  · split at read
    · obtain ⟨g', added, rfl⟩ := map_eq_ok.mp read
      exact h.add added
    · cases read
  · split at read
    · obtain ⟨g', settled, rfl⟩ := map_eq_ok.mp read
      exact h.settle settled
    · obtain ⟨g', added, rfl⟩ := map_eq_ok.mp read
      exact h.add added

theorem hasPaths_shorts {d : Dashed} {cs : List Char} (h : g.HasPaths)
    (read : shorts level flags g cs = .ok d) : d.given.HasPaths := by
  induction cs generalizing g with
  | nil =>
    cases read
    exact h
  | cons c rest ih =>
    rw [shorts.eq_def] at read
    dsimp only at read
    split at read
    · cases read
    split at read
    · split at read
      · obtain ⟨g', settled, rfl⟩ := map_eq_ok.mp read
        exact h.settle settled
      -- the value is the rest, with an equals sign in front of it or without
      all_goals
        obtain ⟨g', added, rfl⟩ := map_eq_ok.mp read
        exact h.add added
    · split at read
      · cases read
      · exact ih (h.add (by assumption)) read

theorem hasPaths_dashed {d : Dashed} (h : g.HasPaths) (read : dashed level flags g s = .ok d) :
    d.given.HasPaths := by
  unfold dashed at read
  split at read
  · exact hasPaths_long h read
  · exact hasPaths_shorts h read

theorem hasPaths_commandLevel {waiting : Option Flag} {args : List String} (h : g.HasPaths)
    (read : commandLevel name waiting g args = .ok g') : g'.HasPaths := by
  induction args generalizing waiting g with
  | nil =>
    simp only [commandLevel] at read
    split at read
    · cases read
    · exact h.settle read
  | cons a rest ih =>
    simp only [commandLevel] at read
    split at read
    · split at read
      · exact ih (g := g.addLater _ a) h read
      · cases read
    · split at read
      · obtain ⟨between, added, settled⟩ := exists_ok_of_bind read
        exact (h.foldlM_addWord added).settle settled
      split at read
      · split at read
        · cases read
        · exact ih (h.addWord (by assumption)) read
      · split at read
        · cases read
        · exact ih (hasPaths_dashed h (by assumption)) read

theorem hasPaths_topLevel {waiting : Option Flag} {args rest : List String} (h : g.HasPaths)
    (read : topLevel waiting g args = .ok (g', name, rest)) : g'.HasPaths := by
  induction args generalizing waiting g with
  | nil => cases read
  | cons a args ih =>
    simp only [topLevel] at read
    split at read
    · split at read
      · exact ih (g := g.addLater _ a) h read
      · cases read
    · split at read
      · split at read
        · cases read
          exact h
        · cases read
      · split at read
        · cases read
        · exact ih (hasPaths_dashed h (by assumption)) read

/-- The store root and the configuration file of an invocation are not empty. -/
theorem paths_of_parse {json : Option String} {args : List String} {i : Invocation}
    (read : parse json args = .ok i) : i.root ≠ some "" ∧ i.config ≠ some "" := by
  obtain ⟨⟨top, name, rest⟩, above, read⟩ := exists_ok_of_bind read
  obtain ⟨below, inside, read⟩ := exists_ok_of_bind read
  obtain ⟨command, -, read⟩ := exists_ok_of_bind read
  obtain ⟨top', settled, read⟩ := exists_ok_of_bind read
  cases read
  have lower := hasPaths_commandLevel Given.hasPaths_empty inside
  have upper := (hasPaths_topLevel Given.hasPaths_empty above).settle settled
  have either {f : Flag} (path : f.isPath = true) :
      (below.value? f <|> top'.value? f) ≠ some "" := by
    cases found : below.value? f with
    | none => exact upper.value? path
    | some p =>
      change some p ≠ some ""
      rw [← found]
      exact lower.value? path
  exact ⟨either rfl, either rfl⟩

/-! ### Options with an equals sign -/

/-- A flag with its value in one argument. -/
def Flag.argument (f : Flag) (value : String) : String := "--" ++ f.long?.getD "" ++ "=" ++ value

theorem Flag.toList_argument (f : Flag) (v : String) :
    (f.argument v).toList = '-' :: '-' :: ((f.long?.getD "").toList ++ '=' :: v.toList) := by
  simp [argument]

/-- No two flags have the same long name. -/
theorem Flag.eq_of_long? {f f' : Flag} {n : String} (h : f.long? = some n)
    (h' : f'.long? = some n) : f = f' := by
  rw [← h'] at h
  revert h
  cases f <;> cases f' <;> decide

theorem splitLong_argument (f : Flag) (v : String) :
    splitLong (f.argument v) = (f.long?.getD "", some v) := by
  have plain : (f.long?.getD "").toList.all (fun c => !decide (c = '=')) = true := by
    cases f <;> rfl
  have cut : ((f.long?.getD "").toList ++ '=' :: v.toList).takeWhile (fun c => !decide (c = '=')) =
      (f.long?.getD "").toList := by
    simp [List.takeWhile_append_of_pos (List.all_eq_true.mp plain)]
  simp [splitLong, Flag.toList_argument, cut]

theorem find?_long (listed : f ∈ flags) (valued : f.hasValue = true) :
    flags.find? (fun f' => f'.long? = some (f.long?.getD "")) = some f := by
  have named : f.long? = some (f.long?.getD "") := by cases f <;> first | rfl | cases valued
  cases found : flags.find? (fun f' => f'.long? = some (f.long?.getD "")) with
  | none => exact absurd named (by simpa using List.find?_eq_none.mp found f listed)
  | some f' =>
    have named' := List.find?_some found
    rw [Flag.eq_of_long? (f := f') (by simpa using named') named]

theorem isValue_argument (f : Flag) (v : String) : isValue (f.argument v) = false := by
  have longer : f.argument v ≠ "-" := by
    rw [ne_eq, ← String.toList_inj, Flag.toList_argument]
    simp
  simp [isValue, startsWith, Flag.toList_argument, longer]

theorem argument_ne_dashes (f : Flag) (v : String) : f.argument v ≠ "--" := by
  have dashes : "--".toList = ['-', '-'] := rfl
  rw [ne_eq, ← String.toList_inj, Flag.toList_argument, dashes]
  simp

theorem Given.add_of_fresh (valued : f.hasValue = true) (settled : g.pending = none)
    (fresh : g.has f = false) (proper : f.isPath = true → v ≠ "") :
    g.add level f v = .ok { g with flags := g.flags ++ [(f, v)] } := by
  have path : (f.isPath && decide (v = "")) = false := by simpa using proper
  have taken : g.take f v = .ok { g with flags := g.flags ++ [(f, v)] } := by
    simp [take, fresh, path]
  cases f with
  | version | help | summary | json => cases valued
  | root | config | scope | kind | signature =>
    simpa [add, settle, settled, bind, Except.bind] using taken

/-- An option that was not given before is taken with the value that stands behind the equals
sign. -/
theorem commandLevel_argument (listed : f ∈ name.flags) (valued : f.hasValue = true)
    (settled : g.pending = none) (fresh : g.has f = false) (proper : f.isPath = true → v ≠ "")
    (rest : List String) :
    commandLevel name none g (f.argument v :: rest) =
      commandLevel name none { g with flags := g.flags ++ [(f, v)] } rest := by
  have long_form : startsWith (f.argument v) "--" = true := by
    simp [startsWith, Flag.toList_argument]
  have added : g.add (some name) f v = .ok { g with flags := g.flags ++ [(f, v)] } :=
    Given.add_of_fresh valued settled fresh proper
  simp only [commandLevel, if_neg (argument_ne_dashes f v), isValue_argument, Bool.false_eq_true,
    if_false, dashed, long_form, if_true, long, splitLong_argument, find?_long listed valued, valued,
    added, Except.map]

/-- Options that a command knows, at most once each, are all taken. -/
theorem commandLevel_arguments {os : List (Flag × String)} (settled : g.pending = none)
    (distinct : ((g.flags ++ os).map (·.1)).Nodup)
    (known : ∀ o ∈ os, o.1 ∈ name.flags ∧ o.1.hasValue = true)
    (proper : ∀ o ∈ os, o.1.isPath = true → o.2 ≠ "") (rest : List String) :
    commandLevel name none g (os.map (fun o => o.1.argument o.2) ++ rest) =
      commandLevel name none { g with flags := g.flags ++ os } rest := by
  induction os generalizing g with
  | nil => simp
  | cons o os ih =>
    obtain ⟨listed, valued⟩ := known o List.mem_cons_self
    have fresh : g.has o.1 = false := by
      rw [Given.has, List.any_eq_false]
      intro p hp same
      rw [List.map_append, List.nodup_append] at distinct
      exact distinct.2.2 p.1 (List.mem_map_of_mem hp) o.1 (by simp) (by simpa using same)
    -- the first option is taken, and the others are read with it among those that were given
    rw [List.map_cons, List.cons_append, commandLevel_argument listed valued settled fresh
      (proper o List.mem_cons_self)]
    rw [ih (g := { g with flags := g.flags ++ [o] }) settled (by simpa using distinct)
      (fun p hp => known p (List.mem_cons_of_mem o hp))
      (fun p hp => proper p (List.mem_cons_of_mem o hp))]
    simp

theorem topLevel_name (name : CommandName) (rest : List String) :
    topLevel none .empty (name.text :: rest) = .ok (.empty, name, rest) := by
  have named : CommandName.parse? name.text = some name := by cases name <;> decide
  have word : isValue name.text = true := by cases name <;> decide
  simp only [topLevel, word, if_true, named]

/-- Where no option stands before the name of a command, the rest is read by the command alone. -/
theorem parse_name (json : Option String) (name : CommandName) (rest : List String) :
    parse json (name.text :: rest) = (commandLevel name none .empty rest >>= fun g =>
      (commandOf json name g).map
        fun command => ⟨g.value? .root, g.value? .config, command⟩) := by
  unfold parse
  simp only [topLevel_name, bind, Except.bind]
  cases commandLevel name none .empty rest with
  | error e => rfl
  | ok g =>
    dsimp only
    cases commandOf json name g with
    | error e => rfl
    | ok command => simp [Except.map, Given.settle, Given.empty, Given.value?, pure, Except.pure]

/-- The arguments of a command: options, each with its value behind an equals sign, and words. -/
def callArguments (name : CommandName) (os : List (Flag × String)) (words : List String) :
    List String :=
  name.text :: os.map (fun o => o.1.argument o.2) ++ "--" :: words

theorem parse_callArguments {os : List (Flag × String)} {words : List String}
    (distinct : (os.map (·.1)).Nodup)
    (known : ∀ o ∈ os, o.1 ∈ name.flags ∧ o.1.hasValue = true)
    (proper : ∀ o ∈ os, o.1.isPath = true → o.2 ≠ "")
    (fits : words.foldlM (Given.addWord name) ⟨os, none, []⟩ = .ok ⟨os, none, words⟩)
    (json : Option String) :
    parse json (callArguments name os words) =
      (commandOf json name ⟨os, none, words⟩).map
        fun command => ⟨os.lookup .root, os.lookup .config, command⟩ := by
  have inside : commandLevel name none .empty (os.map (fun o => o.1.argument o.2) ++ "--" :: words) =
      .ok ⟨os, none, words⟩ := by
    rw [commandLevel_arguments rfl (by simpa [Given.empty] using distinct) known proper]
    simp only [commandLevel, if_true]
    change words.foldlM (Given.addWord name) ⟨[] ++ os, none, []⟩ >>= Given.settle = _
    rw [List.nil_append, fits]
    rfl
  rw [callArguments, List.cons_append, parse_name, inside]
  rfl

/-- The options for the store and the configuration. -/
def placeOptions (root config : Option String) : List (Flag × String) :=
  root.toList.map (Prod.mk .root) ++ config.toList.map (Prod.mk .config)

/-- The options of a command that is about a file of a kind. -/
def fileOptions (root config : Option String) (kind : String) (signature : Option String) :
    List (Flag × String) :=
  placeOptions root config ++ (.kind, kind) :: signature.toList.map (Prod.mk .signature)

section

variable {root config : Option String} (paths : root ≠ some "" ∧ config ≠ some "")
  (kind coordinate : String) (json : Option String)

include paths

theorem parse_locate (signature : Option String) :
    parse json (callArguments .locate (fileOptions root config kind signature) [coordinate]) =
      .ok ⟨root, config, .locate coordinate (some kind) signature⟩ := by
  rw [parse_callArguments]
  · cases root <;> cases config <;> cases signature <;> rfl
  · cases root <;> cases config <;> cases signature <;> simp [fileOptions, placeOptions]
  · cases root <;> cases config <;> cases signature <;> simp [fileOptions, placeOptions] <;> decide
  · cases root <;> cases config <;> cases signature <;>
      simp_all [fileOptions, placeOptions, Flag.isPath]
  · rfl

theorem parse_put {file : String} (named : file ≠ "") :
    parse json (callArguments .put (fileOptions root config kind none) [coordinate, file]) =
      .ok ⟨root, config, .put coordinate file (some kind)⟩ := by
  rw [parse_callArguments]
  · cases root <;> cases config <;> rfl
  · cases root <;> cases config <;> simp [fileOptions, placeOptions]
  · cases root <;> cases config <;> simp [fileOptions, placeOptions] <;> decide
  · cases root <;> cases config <;> simp_all [fileOptions, placeOptions, Flag.isPath]
  · simp [Given.addWord, CommandName.maxWords?, named, bind, Except.bind, pure, Except.pure]

/-- As an argument of its own a kind must not begin with a dash. -/
theorem parse_locate_apart :
    parse json ("locate" :: (placeOptions root config).map (fun o => o.1.argument o.2) ++
        ["--kind", kind, "--", coordinate]) =
      if isValue kind then .ok ⟨root, config, .locate coordinate (some kind) none⟩
      else .error .usage := by
  have inside : commandLevel .locate none .empty ((placeOptions root config).map
        (fun o => o.1.argument o.2) ++ ["--kind", kind, "--", coordinate]) =
      if isValue kind then .ok ⟨placeOptions root config ++ [(.kind, kind)], none, [coordinate]⟩
      else .error .usage := by
    rw [commandLevel_arguments rfl]
    · cases root <;> cases config <;> rfl
    · cases root <;> cases config <;> simp [Given.empty, placeOptions]
    · cases root <;> cases config <;> simp [placeOptions] <;> decide
    · cases root <;> cases config <;> simp_all [placeOptions, Flag.isPath]
  rw [List.cons_append]
  change parse json (CommandName.locate.text :: _) = _
  rw [parse_name, inside]
  split
  · cases root <;> cases config <;> rfl
  · rfl

end

end Depot.CommandLine
