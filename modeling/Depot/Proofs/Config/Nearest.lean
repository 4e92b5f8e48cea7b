import Depot.Proofs.Config.Precedence

/-!
# The project of a directory

The directories upward from a path are the path, the one it lies in, and so on; each has a shorter
path than the one before, so there is a last one. The project is the first of them that is seen to
have a project file, and the configuration is the one that is loaded with this file: with its
settings or with its fault, also when it is seen but cannot be read, and whatever lies further up.
Without a project file it is the one of a file in which nothing stands. A file that cannot be seen,
since its directory is closed or its path is too long, counts for none.
-/

namespace Depot

open Text

/-- Every slash is a byte. -/
theorem Text.le_utf8ByteSize_repeated (n : Nat) : n ≤ (Text.repeated '/' n).utf8ByteSize := by
  induction n with
  | zero => exact Nat.zero_le _
  | succ n ih =>
    have longer : Text.repeated '/' (n + 1) = "/" ++ Text.repeated '/' n := by
      simp [Text.repeated, List.replicate_succ]
    rw [longer, String.utf8ByteSize_append]
    have first : "/".utf8ByteSize = 1 := rfl
    omega

namespace Path

/-- A path, the one without its last segment, and so on up to the last that has none to lose. -/
def upward (p : String) : List String :=
  p :: match _h : parent? p with
    | some above => upward above
    | none => []
termination_by p.length
decreasing_by exact length_lt_of_parent? _h

theorem upward_of_parent? {p above : String} (h : parent? p = some above) :
    upward p = p :: upward above := by
  rw [upward]
  split <;> simp_all

theorem upward_of_top {p : String} (h : parent? p = none) : upward p = [p] := by
  rw [upward]
  split <;> simp_all

/-- Slashes at the end count for nothing. -/
theorem parent?_slashes (p : String) (n : Nat) : parent? (p ++ Text.repeated '/' n) = parent? p := by
  have pieces : split '/' (p ++ Text.repeated '/' n) = split '/' p ++ List.replicate n "" := by
    induction n with
    | zero => simp [Text.repeated]
    | succ n ih =>
      rw [split_cut (a := p ++ Text.repeated '/' n) (b := "")
        (by simp [Text.repeated, List.replicate_succ']), ih, List.replicate_succ', ← List.append_assoc]
      rfl
  have skipped : significant (split '/' p ++ List.replicate n "") = significant (split '/' p) := by
    obtain ⟨s, rest, first⟩ := List.exists_cons_of_ne_nil (split_ne_nil '/' p)
    rw [first, List.cons_append, significant, significant, List.reverse_append,
      List.reverse_replicate, List.dropWhile_append_of_pos (by simp)]
  rw [parent?, pieces, skipped, parent?]

end Path

namespace Config

variable {files : FileTree} {path : String}

/-! ### The nearest project -/

/-- A directory is seen to have a project file. -/
def hasProject (files : FileTree) (dir : String) : Bool := files.isFile (Path.join dir projectFile)

/-- What is seen is a file, and a path that leads to it. -/
theorem hasProject_iff {dir : String} : hasProject files dir = true ↔ ∃ place b,
    files.locate (Path.join dir projectFile) = .ok place ∧ files.find? place = some (.file b) := by
  have seen : hasProject files dir = true ↔
      ∃ place b, files.entry (Path.join dir projectFile) = .ok (place, .file b) := by
    unfold hasProject FileTree.isFile
    split
    · rename_i place b found
      simp [found]
    · rename_i other
      simp only [Bool.false_eq_true, false_iff]
      rintro ⟨place, b, found⟩
      exact other place b found
  simp only [seen, FileTree.entry_eq_ok]

theorem hasProject_of_isDirectory {dir : String}
    (h : files.isDirectory (Path.join dir projectFile) = true) : hasProject files dir = false := by
  unfold FileTree.isDirectory at h
  unfold hasProject FileTree.isFile
  split at h
  · rename_i found
    rw [found]
  · cases h

/-- A path that is too long shows nothing. -/
theorem hasProject_of_long {dir : String} (long : FileTree.maxPath ≤ dir.utf8ByteSize) :
    hasProject files dir = false := by
  have longer : dir.utf8ByteSize ≤ (Path.join dir projectFile).utf8ByteSize := by
    unfold Path.join
    split
    · rename_i top
      simp only [show Path.isAbsolute projectFile = false from rfl, Bool.false_or,
        decide_eq_true_eq] at top
      simp [top]
    · split <;> simp only [String.utf8ByteSize_append] <;> omega
  refine Bool.eq_false_iff.mpr fun seen => ?_
  obtain ⟨place, b, located, -⟩ := hasProject_iff.mp seen
  obtain ⟨_, checked, -⟩ := exists_ok_of_bind located
  unfold FileTree.checkPath at checked
  rw [if_pos (long.trans longer)] at checked
  split at checked
  · cases checked
  · split at checked <;> cases checked

theorem NearestProject.eq_find? {dir : String} {nearest : Option String}
    (h : NearestProject files dir nearest) :
    nearest = (Path.upward dir).find? (hasProject files) := by
  induction h with
  | @here dir found =>
    have found : hasProject files dir = true := found
    rw [Path.upward, List.find?_cons_of_pos found]
  | @above dir _ _ missing next _ ih =>
    have missing : ¬ hasProject files dir = true := Bool.eq_false_iff.mp missing
    rw [Path.upward_of_parent? next, List.find?_cons_of_neg missing, ih]
  | @nowhere dir missing top =>
    have missing : ¬ hasProject files dir = true := Bool.eq_false_iff.mp missing
    rw [Path.upward_of_top top, List.find?_cons_of_neg missing]
    rfl

theorem findProject_eq_find? (files : FileTree) (start : String) :
    findProject files start = (Path.upward start).find? (hasProject files) :=
  (nearest_findProject files start).eq_find?

/-! ### Project files -/

/-- Why a file is no project file that can be used: it cannot be read, what stands in it is no
document of settings, or it sets a value that cannot be used. -/
inductive Rejects (files : FileTree) (path : String) : ConfigError → Prop where
  | unread {e : ConfigError} (read : readText files path = .error e) : Rejects files path e
  | unparsed {text : String} (read : readText files path = .ok text)
      (parsed : Settings.ofText? text = none) : Rejects files path (.invalidDocument path)
  | invalid {text : String} {s : Settings} {f : SettingFault} (read : readText files path = .ok text)
      (parsed : Settings.ofText? text = some s) (checked : s.validate = .error f) :
      Rejects files path (.setting f)

theorem validate_rebase (path : String) (s : Settings) : (rebase path s).validate = s.validate := by
  unfold rebase
  split <;> rfl

theorem loadFile_eq_error {e : ConfigError} :
    loadFile files path = .error e ↔ Rejects files path e := by
  unfold loadFile
  constructor
  · intro h
    cases read : readText files path with
    | error _ =>
      rw [read] at h
      cases h
      exact .unread read
    | ok text =>
      cases parsed : Settings.ofText? text with
      | none =>
        simp only [read, parsed, bind, Except.bind] at h
        cases h
        exact .unparsed read parsed
      | some s =>
        simp only [read, parsed, bind, Except.bind, validated, validate_rebase] at h
        cases checked : s.validate with
        | ok => simp [checked] at h
        | error f =>
          simp only [checked] at h
          cases h
          exact .invalid read parsed checked
  · intro h
    cases h with
    | unread read => rw [read]; rfl
    | unparsed read parsed => simp only [read, parsed, bind, Except.bind]
    | invalid read parsed checked =>
      simp only [read, parsed, bind, Except.bind, validated, validate_rebase, checked]

/-- A file in which nothing stands sets nothing. -/
theorem loadFile_of_empty (read : files.read path = .ok []) : loadFile files path = .ok .empty := by
  have text : readText files path = .ok "" := by
    unfold readText
    rw [read]
    rfl
  have parsed : Settings.ofText? "" = some .empty := by decide +kernel
  have kept : rebase path .empty = .empty := by simp [rebase, Settings.empty]
  simp only [loadFile, text, parsed, kept, bind, Except.bind]
  rfl

theorem loadFile_congr {files' : FileTree} (same : files'.read path = files.read path) :
    loadFile files' path = loadFile files path := by
  simp only [loadFile, readText, same]

/-! ### Loading for a directory -/

variable {source : ConfigSource} {globals : ConfigLayer} {start dir : String}

/-- The configuration with settings of a project between the global ones and the variables. -/
def configured (env : Environment) (globals : ConfigLayer) (projectRoot : Option String)
    (s : Settings) : Config :=
  ⟨laid env (globals.placed.merge s), projectRoot⟩

/-- Other files do not matter: in every tree with the same global layer, in which the path is read
with this outcome, it is loaded with the same result, its directory apart. -/
def LikeFile (source : ConfigSource) (globals : ConfigLayer) (path : String)
    (read : Except FileError Bytes) (result : Except ConfigError Config) : Prop :=
  ∀ files', files'.read path = read →
    globals.Of files' (source.globalPath.filter files'.isThere) →
    loadPath { source with files := files' } path =
      result.map fun c => { c with projectRoot := Path.parent? path }

/-- What is loaded with the project file of a directory: what is wrong with the file, or its settings
over the global ones. -/
structure LoadsProject (source : ConfigSource) (globals : ConfigLayer) (dir : String)
    (result : Except ConfigError Config) : Prop where
  fails : ∀ e, result = .error e ↔ Rejects source.files (Path.join dir projectFile) e
  root : ∀ c, result = .ok c → c.projectRoot = some dir
  settings : ∀ c, result = .ok c → ∃ p : ConfigLayer,
    p.OfFile source.files (Path.join dir projectFile) ∧ Layered source.environment p globals c
  alone : LikeFile source globals (Path.join dir projectFile)
    (source.files.read (Path.join dir projectFile)) result

/-- What is loaded without a project file: the settings of one in which nothing stands. -/
structure LoadsNoProject (source : ConfigSource) (globals : ConfigLayer) (c : Config) : Prop where
  root : c.projectRoot = none
  settings : Layered source.environment .absent globals c
  like_empty : ∀ path, LikeFile source globals path (.ok []) (.ok c)

/-- With a valid layer below and valid variables above, only the project file can fail. -/
theorem loadFile_bind_finish (source : ConfigSource)
    (global : globals.Of source.files (source.globalPath.filter source.files.isThere))
    (variables_valid : ValidVariables source.environment) (files : FileTree) (path : String)
    (projectRoot : Option String) :
    (loadFile files path >>= finish source projectRoot) =
      (loadFile files path).map (configured source.environment globals projectRoot) := by
  cases loaded : loadFile files path with
  | error e => rfl
  | ok s =>
    obtain ⟨p, project, rfl⟩ := loadFile_eq_ok.mp loaded
    exact finish_of_valid (p.valid_placed.mpr project.valid) global variables_valid

section Valid

variable (global : globals.Of source.files (source.globalPath.filter source.files.isThere))
  (variables_valid : ValidVariables source.environment)

include global variables_valid

omit global in
theorem likeFile_of_loaded {read : Except FileError Bytes} {loaded : Except ConfigError Settings}
    (loads : ∀ files' : FileTree, files'.read path = read → loadFile files' path = loaded)
    (projectRoot : Option String) :
    LikeFile source globals path read
      (loaded.map (configured source.environment globals projectRoot)) := by
  intro files' same global'
  have whole : loadPath { source with files := files' } path =
      (loadFile files' path).map (configured source.environment globals (Path.parent? path)) :=
    loadFile_bind_finish { source with files := files' } global' variables_valid files' path
      (Path.parent? path)
  rw [whole, loads files' same]
  cases loaded <;> rfl

theorem loadsProject_of_findProject (nearest : findProject source.files start = some dir) :
    LoadsProject source globals dir (loadFrom source start) := by
  have whole : loadFrom source start = (loadFile source.files (Path.join dir projectFile)).map
      (configured source.environment globals (some dir)) := by
    rw [loadFrom_eq, nearest]
    exact loadFile_bind_finish source global variables_valid source.files _ (some dir)
  rw [whole]
  constructor
  case fails =>
    intro e
    rw [← loadFile_eq_error]
    cases loadFile source.files (Path.join dir projectFile) <;> simp [Except.map]
  case root =>
    intro c h
    obtain ⟨s, -, rfl⟩ := map_eq_ok.mp h
    rfl
  case settings =>
    intro c h
    obtain ⟨s, loaded, rfl⟩ := map_eq_ok.mp h
    obtain ⟨p, project, rfl⟩ := loadFile_eq_ok.mp loaded
    have valid := valid_of_layers (p.valid_placed.mpr project.valid) global variables_valid
    exact ⟨p, project, layered_of_valid (validVariables_iff.mp variables_valid).1 valid⟩
  case alone =>
    exact likeFile_of_loaded variables_valid (fun _ => loadFile_congr) (some dir)

theorem loadsNoProject_of_findProject (nearest : findProject source.files start = none) :
    ∃ c, loadFrom source start = .ok c ∧ LoadsNoProject source globals c := by
  have whole : loadFrom source start =
      .ok (configured source.environment globals none .empty) := by
    rw [loadFrom_eq, nearest]
    exact finish_of_valid Settings.valid_empty global variables_valid
  have valid : (laid source.environment (globals.placed.merge ConfigLayer.absent.placed)).Valid :=
    valid_of_layers Settings.valid_empty global variables_valid
  refine ⟨_, whole, rfl, layered_of_valid (validVariables_iff.mp variables_valid).1 valid,
    fun path => ?_⟩
  have loads : ∀ files' : FileTree, files'.read path = .ok [] →
      loadFile files' path = .ok .empty := fun _ => loadFile_of_empty
  exact likeFile_of_loaded variables_valid loads none

end Valid

/-- The configuration for a directory is loaded with the project file of the first directory upward
that is seen to have one: its path leads to a file, and a directory of that name is passed over. A
file there that cannot be used is the error, and one that can gives the settings, alone. If there is
none, nothing fails, and the settings are those of an empty file. -/
theorem loads_nearest_project (source : ConfigSource) (globals : ConfigLayer)
    (global : globals.Of source.files (source.globalPath.filter source.files.isThere))
    (variables_valid : ValidVariables source.environment) (start : String) :
    (∀ dir, hasProject source.files dir = true ↔ ∃ place b,
      source.files.locate (Path.join dir projectFile) = .ok place ∧
        source.files.find? place = some (.file b)) ∧
    (∀ dir, source.files.isDirectory (Path.join dir projectFile) = true →
      hasProject source.files dir = false) ∧
    (∀ dir, (Path.upward start).find? (hasProject source.files) = some dir →
      LoadsProject source globals dir (loadFrom source start)) ∧
    ((Path.upward start).find? (hasProject source.files) = none →
      ∃ c, loadFrom source start = .ok c ∧ LoadsNoProject source globals c) := by
  rw [← findProject_eq_find?]
  exact ⟨fun _ => hasProject_iff, fun _ => hasProject_of_isDirectory,
    fun _ => loadsProject_of_findProject global variables_valid,
    loadsNoProject_of_findProject global variables_valid⟩

end Config

namespace Sample

/-- A project below a directory that has one, too, but a broken one. Further down, a directory has
the name of the file. -/
def terraces : FileTree where
  nodes := [(["strata.toml"], .file (Utf8.encode "[logging")), (["w"], .directory),
    (["w", "strata.toml"], .file (Utf8.encode "[logging]\nfilter = \"debug\"\n")),
    (["w", "a"], .directory), (["w", "a", "strata.toml"], .directory)]
  current := []

def terraced : ConfigSource := ⟨terraces, [], none⟩

/-- The project file can be seen and cannot be read. -/
def sealed : ConfigSource :=
  { terraced with files.refused := [(["w", "strata.toml"], { read := some .permission })] }

/-- One project below another. -/
def stairs : FileTree where
  nodes := [(["w"], .directory), (["w", "strata.toml"], .file []), (["w", "a"], .directory),
    (["w", "a", "strata.toml"], .file [])]
  current := []

/-- The lower one is in a directory that is closed. -/
def closedStairs : FileTree :=
  { stairs with refused := [(["w", "a"], { search := some .permission })] }

/-- A path to the lower one with more slashes than a path can have characters. -/
def longStart : String := "/w/a" ++ Text.repeated '/' 4096

end Sample

open Sample in
theorem Config.loads_nearest_project_sample :
    (∃ p : ConfigLayer, p.OfFile terraces "/w/strata.toml" ∧
      Layered [] p .absent ⟨⟨none, none, some ⟨some "debug"⟩⟩, some "/w"⟩) ∧
    loadFrom terraced "/v" = .error (.invalidDocument "/strata.toml") ∧
    loadFrom sealed "/w/a" = .error (.io (.refused .permission)) ∧
    ∃ c, loadFrom ⟨.empty, [], none⟩ "/w/a" = .ok c ∧ c.projectRoot = none := by
  have variables_valid : ValidVariables [] := ⟨nofun, nofun⟩
  have found : (Path.upward "/w/a").find? (hasProject terraces) = some "/w" := by
    rw [← findProject_eq_find?]
    decide +kernel
  have found' : (Path.upward "/v").find? (hasProject terraces) = some "/" := by
    rw [← findProject_eq_find?]
    decide +kernel
  have seen : (Path.upward "/w/a").find? (hasProject sealed.files) = some "/w" := by
    rw [← findProject_eq_find?]
    decide +kernel
  have nowhere : (Path.upward "/w/a").find? (hasProject .empty) = none := by
    rw [← findProject_eq_find?]
    decide +kernel
  have broken : readText terraces "/strata.toml" = .ok "[logging" := by decide +kernel
  have unread : readText sealed.files "/w/strata.toml" = .error (.io (.refused .permission)) := by
    decide +kernel
  obtain ⟨-, -, loads, -⟩ := loads_nearest_project terraced .absent rfl variables_valid "/w/a"
  obtain ⟨-, -, loads', -⟩ := loads_nearest_project terraced .absent rfl variables_valid "/v"
  obtain ⟨-, -, loads_sealed, -⟩ := loads_nearest_project sealed .absent rfl variables_valid "/w/a"
  obtain ⟨-, -, -, loads_none⟩ :=
    loads_nearest_project ⟨.empty, [], none⟩ .absent rfl variables_valid "/w/a"
  refine ⟨?_, ?_, ?_, ?_⟩
  · exact (loads _ found).settings _ (by decide +kernel)
  · exact ((loads' _ found').fails _).mpr (.unparsed broken (by decide +kernel))
  · exact ((loads_sealed _ seen).fails _).mpr (.unread unread)
  · obtain ⟨c, loaded, empty⟩ := loads_none nowhere
    exact ⟨c, loaded, empty.root⟩

open Sample in
/-- The nearest project file is there, and it is passed over where its directory is closed, or where
the path is too long: the project further up is loaded. -/
theorem Config.hidden_project_passed_over :
    ValidVariables [] ∧ ConfigLayer.absent.Of closedStairs none ∧
    (Path.upward "/w/a").head? = some "/w/a" ∧ (Path.upward longStart).head? = some longStart ∧
    closedStairs.find? ["w", "a", "strata.toml"] = some (.file []) ∧
    closedStairs.read "/w/a/strata.toml" = .error (.refused .permission) ∧
    loadFrom ⟨closedStairs, [], none⟩ "/w/a" = .ok ⟨.empty, some "/w"⟩ ∧
    loadFrom ⟨stairs, [], none⟩ "/w/a" = .ok ⟨.empty, some "/w/a"⟩ ∧
    loadFrom ⟨stairs, [], none⟩ longStart = .ok ⟨.empty, some "/w"⟩ := by
  have above : Path.parent? longStart = some "/w" := by
    rw [longStart, Path.parent?_slashes]
    decide +kernel
  have hidden : hasProject stairs longStart = false := by
    refine hasProject_of_long ?_
    rw [longStart, String.utf8ByteSize_append]
    exact Nat.le_add_left_of_le (Text.le_utf8ByteSize_repeated _)
  have nearest : findProject stairs longStart = some "/w" := by
    rw [findProject_eq_find?, Path.upward_of_parent? above,
      List.find?_cons_of_neg (Bool.eq_false_iff.mp hidden), ← findProject_eq_find?]
    decide +kernel
  refine ⟨⟨nofun, nofun⟩, rfl, ?_, ?_, ?_, ?_, ?_, ?_, ?_⟩
  · rw [Path.upward]
    rfl
  · rw [Path.upward]
    rfl
  · decide +kernel
  · decide +kernel
  · decide +kernel
  · decide +kernel
  · rw [loadFrom_eq, nearest]
    decide +kernel

end Depot
