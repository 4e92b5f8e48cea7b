import Depot.Proofs.Config.Directories
import Depot.Proofs.Config.Validity
import Depot.Proofs.Config.Variables

/-!
# Precedence

A configuration has three layers: what the variables of the environment set, what the project file
sets, and what the global file sets. It is loaded exactly if every file that is there is valid on its
own and the variables can be used. Each of its values is then that of the highest layer that sets it,
or the default, and no value of it can fail later.
-/

namespace Depot

open Text

namespace Settings

/-- Settings with the same values. Sections without values do not count. -/
structure Same (s t : Settings) : Prop where
  root : s.root = t.root
  scopes : s.scopes = t.scopes
  maxFetches : s.maxFetches = t.maxFetches
  filter : s.filter = t.filter

theorem Same.valid {s t : Settings} (h : s.Same t) : s.Valid ↔ t.Valid :=
  ⟨fun v => ⟨h.scopes ▸ v.scopes, h.maxFetches ▸ v.fetches, h.filter ▸ v.filter⟩,
    fun v => ⟨h.scopes ▸ v.scopes, h.maxFetches ▸ v.fetches, h.filter ▸ v.filter⟩⟩

end Settings

/-! ### Files -/

/-- What one file sets, with the directory that it lies in. -/
structure ConfigLayer where
  directory : String
  settings : Settings

namespace ConfigLayer

/-- Nothing is set where there is no file. -/
def absent : ConfigLayer := ⟨"", .empty⟩

variable (l : ConfigLayer)

/-- A relative root is taken from the directory of the file, and an absolute one is kept. -/
def root : Option String := l.settings.root.map (Path.join l.directory)

/-- The settings of a file with the root in its place. -/
def placed : Settings :=
  { l.settings with store := l.settings.store.map fun s => ⟨s.root.map (Path.join l.directory)⟩ }

@[simp] theorem root_placed : l.placed.root = l.root := by
  obtain ⟨d, ⟨_ | s, _, _⟩⟩ := l <;> rfl

@[simp] theorem scopes_placed : l.placed.scopes = l.settings.scopes := rfl

@[simp] theorem maxFetches_placed : l.placed.maxFetches = l.settings.maxFetches := rfl

@[simp] theorem filter_placed : l.placed.filter = l.settings.filter := rfl

theorem valid_placed : l.placed.Valid ↔ l.settings.Valid :=
  ⟨fun h => ⟨h.scopes, h.fetches, h.filter⟩, fun h => ⟨h.scopes, h.fetches, h.filter⟩⟩

/-- The layer of a file: it lies in the directory, its text is a document of the settings, and these
are valid on their own. -/
structure OfFile (files : FileTree) (path : String) : Prop where
  directory : Path.parent? path = some l.directory
  document : ∃ text, Config.readText files path = .ok text ∧
    Settings.ofText? text = some l.settings
  valid : l.settings.Valid

/-- The layer of a file, if there is one. -/
def Of (files : FileTree) : Option String → Prop
  | none => l = absent
  | some path => l.OfFile files path

variable {l} {files : FileTree}

theorem Of.valid {path : Option String} (h : l.Of files path) : l.placed.Valid := by
  cases path with
  | none =>
    rw [show l = absent from h, valid_placed]
    exact Settings.valid_empty
  | some path => exact l.valid_placed.mpr (OfFile.valid h)

end ConfigLayer

namespace Config

section Files

variable {files : FileTree} {path : String} {s t : Settings}

theorem validated_eq_ok : validated s = .ok t ↔ s.Valid ∧ s = t := by
  unfold validated
  rw [← Settings.validate_eq_ok]
  cases s.validate <;> simp

theorem exists_parent?_of_readText {text : String} (h : readText files path = .ok text) :
    ∃ dir, Path.parent? path = some dir := by
  unfold readText at h
  split at h
  · cases h
  · cases h
  · rename_i bytes found
    exact FileTree.exists_parent?_of_read found

theorem rebase_eq_placed {dir : String} (h : Path.parent? path = some dir) :
    rebase path s = (ConfigLayer.mk dir s).placed := by
  obtain ⟨_ | ⟨_ | root⟩, resolution, logging⟩ := s <;> simp [rebase, h, ConfigLayer.placed]

/-- A file is loaded exactly if it has a layer. -/
theorem loadFile_eq_ok :
    loadFile files path = .ok s ↔ ∃ l : ConfigLayer, l.OfFile files path ∧ l.placed = s := by
  unfold loadFile
  rw [bind_eq_ok]
  constructor
  · rintro ⟨text, read, h⟩
    obtain ⟨dir, lies⟩ := exists_parent?_of_readText read
    cases document : Settings.ofText? text with
    | none =>
      rw [document] at h
      cases h
    | some t =>
      simp only [document, rebase_eq_placed lies] at h
      obtain ⟨valid, placed⟩ := validated_eq_ok.mp h
      exact ⟨⟨dir, t⟩, ⟨lies, ⟨text, read, document⟩, (ConfigLayer.valid_placed _).mp valid⟩, placed⟩
  · rintro ⟨l, ⟨lies, ⟨text, read, document⟩, valid⟩, rfl⟩
    refine ⟨text, read, ?_⟩
    simp only [document, rebase_eq_placed lies]
    exact validated_eq_ok.mpr ⟨l.valid_placed.mpr valid, rfl⟩

/-- The settings of a file, if there is one. -/
def loadLayer (files : FileTree) : Option String → Except ConfigError Settings
  | none => .ok .empty
  | some path => loadFile files path

theorem loadLayer_eq_ok {path : Option String} :
    loadLayer files path = .ok s ↔ ∃ l : ConfigLayer, l.Of files path ∧ l.placed = s := by
  cases path with
  | none => simp [loadLayer, ConfigLayer.Of, ConfigLayer.absent, ConfigLayer.placed, Settings.empty]
  | some path => exact loadFile_eq_ok

theorem loadGlobal_eq_loadLayer (files : FileTree) (path : Option String) :
    loadGlobal files path = loadLayer files (path.filter files.isThere) := by
  cases path with
  | none => rfl
  | some path =>
    rw [Option.filter_some, loadGlobal]
    split <;> rfl

end Files

/-! ### Variables -/

section Variables

variable {env : Environment} {s t : Settings}

/-- What the variables set, as a layer of its own. -/
def fromVariables (env : Environment) : Settings where
  store := some ⟨value? env storeRootVariable⟩
  resolution := some ⟨(value? env scopesVariable).map scopeNames,
    (value? env maxFetchesVariable).bind count?⟩
  logging := some ⟨value? env logVariable⟩

@[simp] theorem root_fromVariables : (fromVariables env).root = value? env storeRootVariable := rfl

@[simp] theorem scopes_fromVariables :
    (fromVariables env).scopes = (value? env scopesVariable).map scopeNames := rfl

@[simp] theorem maxFetches_fromVariables :
    (fromVariables env).maxFetches = (value? env maxFetchesVariable).bind count? := rfl

@[simp] theorem filter_fromVariables : (fromVariables env).filter = value? env logVariable := rfl

theorem validVariables_iff_values : ValidVariables env ↔
    (∀ v ∈ value? env maxFetchesVariable, ∃ n, count? v = some n ∧ 1 ≤ n) ∧
      ∀ v ∈ value? env scopesVariable, NameScopes (scopeNames v) := by
  have known : ∀ n, (Scope.parse? n).isSome ↔ ∃ s : Scope, s.HasName n := fun n => by
    simp only [Option.isSome_iff_exists, Scope.parse?_eq_some_iff]
  constructor
  · intro h
    constructor
    · intro v hv
      obtain ⟨n, counts, positive, small⟩ := h.fetches v (value?_eq_some_iff.mp hv)
      exact ⟨n, count?_eq_some_iff.mpr ⟨counts, small⟩, positive⟩
    · intro v hv
      obtain ⟨names, lists, some, named⟩ := h.scopes v (value?_eq_some_iff.mp hv)
      rw [lists_iff.mp lists]
      exact ⟨some, fun n hn => (known n).mpr (named n hn)⟩
  · rintro ⟨fetches, scopes⟩
    constructor
    · intro v hv
      obtain ⟨n, counted, positive⟩ := fetches v (value?_eq_some_iff.mpr hv)
      obtain ⟨counts, small⟩ := count?_eq_some_iff.mp counted
      exact ⟨n, counts, positive, small⟩
    · intro v hv
      have named := scopes v (value?_eq_some_iff.mpr hv)
      exact ⟨_, lists_iff.mpr rfl, named.some, fun n hn => (known n).mp (named.known n hn)⟩

theorem not_blank_of_value? {name v : String} (h : v ∈ value? env name) : trim v ≠ "" := by
  simpa using (Option.mem_filter_iff.mp h).2

theorem validVariables_iff : ValidVariables env ↔
    (∀ v ∈ value? env maxFetchesVariable, (count? v).isSome) ∧ (fromVariables env).Valid := by
  rw [validVariables_iff_values]
  constructor
  · rintro ⟨fetches, scopes⟩
    refine ⟨fun v hv => ?_, ?_, ?_, ?_⟩
    · obtain ⟨n, counted, -⟩ := fetches v hv
      rw [counted]
      rfl
    · intro names hn
      obtain ⟨v, hv, rfl⟩ := Option.map_eq_some_iff.mp hn
      exact scopes v hv
    · intro n hn
      rw [maxFetches_fromVariables] at hn
      obtain ⟨v, hv, counted⟩ := Option.bind_eq_some_iff.mp hn
      obtain ⟨m, again, positive⟩ := fetches v hv
      rwa [Option.some.inj (counted.symm.trans again)]
    · -- a filter that is blank is not set
      exact fun f hf => not_blank_of_value? hf
  · rintro ⟨counts, valid⟩
    constructor
    · intro v hv
      obtain ⟨n, counted⟩ := Option.isSome_iff_exists.mp (counts v hv)
      have limit : n ∈ (fromVariables env).maxFetches := by
        rw [maxFetches_fromVariables]
        exact Option.bind_eq_some_iff.mpr ⟨v, hv, counted⟩
      exact ⟨n, counted, valid.fetches n limit⟩
    · exact fun v hv => valid.scopes _ (Option.map_eq_some_iff.mpr ⟨v, hv, rfl⟩)

section Overlay

variable {α : Type} {f : α → Settings} {set : Option α}

@[simp] theorem overlay_none : overlay none s = s := rfl

@[simp] theorem overlay_some {upper : Settings} : overlay (some upper) s = s.merge upper := rfl

@[simp] theorem root_overlay :
    (overlay (set.map f) s).root = ((set.bind fun a => (f a).root) <|> s.root) := by
  cases set <;> simp

@[simp] theorem scopes_overlay :
    (overlay (set.map f) s).scopes = ((set.bind fun a => (f a).scopes) <|> s.scopes) := by
  cases set <;> simp

@[simp] theorem maxFetches_overlay :
    (overlay (set.map f) s).maxFetches = ((set.bind fun a => (f a).maxFetches) <|> s.maxFetches) := by
  cases set <;> simp

@[simp] theorem filter_overlay :
    (overlay (set.map f) s).filter = ((set.bind fun a => (f a).filter) <|> s.filter) := by
  cases set <;> simp

end Overlay

/-- Settings with the variables over them, one after the other. -/
def laid (env : Environment) (s : Settings) : Settings :=
  overlay ((value? env logVariable).map .ofFilter)
    (overlay (((value? env maxFetchesVariable).bind count?).map .ofMaxFetches)
      (overlay (((value? env scopesVariable).map scopeNames).map .ofScopes)
        (overlay ((value? env storeRootVariable).map .ofRoot) s)))

theorem withEnvironment_eq_ok : withEnvironment env s = .ok t ↔
    (∀ v ∈ value? env maxFetchesVariable, (count? v).isSome) ∧ laid env s = t := by
  unfold withEnvironment laid
  simp only [Option.map_map, Function.comp_def]
  cases value? env maxFetchesVariable with
  | none => simp [bind, Except.bind, pure, Except.pure]
  | some v => cases counted : count? v <;> simp [bind, Except.bind, pure, Except.pure, counted]

/-- One after the other is as good as all at once. -/
theorem same_laid (env : Environment) (s : Settings) :
    (laid env s).Same (s.merge (fromVariables env)) := by
  unfold laid fromVariables
  generalize (value? env maxFetchesVariable).bind count? = limit
  generalize (value? env scopesVariable).map scopeNames = names
  constructor <;>
    simp [Settings.ofRoot, Settings.ofScopes, Settings.ofMaxFetches, Settings.ofFilter]

theorem valid_laid (h : s.Valid) : (laid env s).Valid ↔ (fromVariables env).Valid :=
  (same_laid env s).valid.trans (Settings.valid_merge h)

end Variables

/-! ### Configurations -/

/-- What the values of a configuration are. Each is that of the environment, or else of the project,
or else the global one, or else the default; and none of them fails. -/
structure Layered (env : Environment) (project globals : ConfigLayer) (c : Config) : Prop where
  storeRoot : Chosen env storeRootVariable Eq project.root globals.root none c.storeRoot
  scopes : ∃ names set,
    Chosen env scopesVariable Lists project.settings.scopes globals.settings.scopes
      (some ["compile", "runtime"]) (some names) ∧
    c.scopes = .ok set ∧ ∀ s, s ∈ set ↔ ∃ n ∈ names, s.HasName n
  maxFetches : Chosen env maxFetchesVariable Counts project.settings.maxFetches
    globals.settings.maxFetches (some 8) (some c.maxFetches)
  logFilter : Chosen env logVariable Eq project.settings.filter globals.settings.filter
    (some "warn") (some c.logFilter)
  positive : 1 ≤ c.maxFetches
  options : ∃ o, c.resolveOptions = .ok o ∧ c.scopes = .ok o.scopes ∧ c.maxFetches = o.maxFetches

section Loading

variable {source : ConfigSource} {projectRoot : Option String} {env : Environment} {c : Config}
  {project globals : ConfigLayer}

theorem finish_eq_ok {p : Settings} : finish source projectRoot p = .ok c ↔
    ∃ g : ConfigLayer, g.Of source.files (source.globalPath.filter source.files.isThere) ∧
      (∀ v ∈ value? source.environment maxFetchesVariable, (count? v).isSome) ∧
      (laid source.environment (g.placed.merge p)).Valid ∧
      ⟨laid source.environment (g.placed.merge p), projectRoot⟩ = c := by
  unfold finish
  rw [bind_eq_ok, loadGlobal_eq_loadLayer]
  constructor
  · rintro ⟨_, loaded, h⟩
    obtain ⟨g, layer, rfl⟩ := loadLayer_eq_ok.mp loaded
    obtain ⟨s, set, h⟩ := exists_ok_of_bind h
    obtain ⟨counts, rfl⟩ := withEnvironment_eq_ok.mp set
    obtain ⟨s, checked, whole⟩ := exists_ok_of_bind h
    obtain ⟨valid, rfl⟩ := validated_eq_ok.mp checked
    exact ⟨g, layer, counts, valid, Except.ok.inj whole⟩
  · rintro ⟨g, layer, counts, valid, rfl⟩
    exact ⟨g.placed, loadLayer_eq_ok.mpr ⟨g, layer, rfl⟩,
      bind_eq_ok.mpr ⟨_, withEnvironment_eq_ok.mpr ⟨counts, rfl⟩,
        bind_eq_ok.mpr ⟨_, validated_eq_ok.mpr ⟨valid, rfl⟩, rfl⟩⟩⟩

/-- Layers that are valid, each on its own, can be put together. -/
theorem valid_of_layers {p : Settings} (project : p.Valid)
    (layer : globals.Of source.files (source.globalPath.filter source.files.isThere))
    (variables_valid : ValidVariables source.environment) :
    (laid source.environment (globals.placed.merge p)).Valid :=
  (valid_laid ((Settings.valid_merge layer.valid).mpr project)).mpr
    (validVariables_iff.mp variables_valid).2

theorem finish_of_valid {p : Settings} (project : p.Valid)
    (layer : globals.Of source.files (source.globalPath.filter source.files.isThere))
    (variables_valid : ValidVariables source.environment) :
    finish source projectRoot p =
      .ok ⟨laid source.environment (globals.placed.merge p), projectRoot⟩ :=
  finish_eq_ok.mpr ⟨globals, layer, (validVariables_iff.mp variables_valid).1,
    valid_of_layers project layer variables_valid, rfl⟩

/-- The scopes of valid settings can be read. -/
theorem scopes_eq_ok (h : c.settings.Valid) :
    c.scopes = .ok (c.settings.scopes.elim .runtimeSet .ofNames) := by
  unfold scopes
  cases set : c.settings.scopes with
  | none => rfl
  | some names => exact parseScopes_eq_ok.mpr ⟨h.scopes names set, rfl⟩

theorem maxFetches_pos (h : c.settings.Valid) : 1 ≤ c.maxFetches := by
  unfold maxFetches
  cases set : c.settings.maxFetches with
  | none => exact Nat.le_add_left 1 7
  | some n => exact h.fetches n set

theorem resolveOptions_eq_ok (h : c.settings.Valid) :
    ∃ o, c.resolveOptions = .ok o ∧ c.scopes = .ok o.scopes ∧ c.maxFetches = o.maxFetches := by
  refine ⟨_, map_eq_ok.mpr ⟨_, scopes_eq_ok h, rfl⟩, scopes_eq_ok h, ?_⟩
  exact (Nat.max_eq_left (maxFetches_pos h)).symm

theorem layered_of_valid
    (counts : ∀ v ∈ value? env maxFetchesVariable, (count? v).isSome)
    (h : (laid env (globals.placed.merge project.placed)).Valid) :
    Layered env project globals ⟨laid env (globals.placed.merge project.placed), projectRoot⟩ := by
  have same := same_laid env (globals.placed.merge project.placed)
  constructor
  case storeRoot =>
    refine chosen_of_value? some (fun v _ => ⟨v, rfl, rfl⟩) ?_
    simp [storeRoot, same.root]
  case scopes =>
    refine ⟨(laid env (globals.placed.merge project.placed)).scopes.getD ["compile", "runtime"], _,
      chosen_of_value? (fun v => some (scopeNames v)) (fun v _ => ⟨_, lists_iff.mpr rfl, rfl⟩) ?_,
      scopes_eq_ok h, fun s => ?_⟩
    · simp [same.scopes, Option.map_eq_bind]
    · rw [← ScopeSet.mem_ofNames]
      cases (laid env (globals.placed.merge project.placed)).scopes with
      | none =>
        rw [Option.getD_none, ScopeSet.ofNames_runtime]
        rfl
      | some names => rfl
  case maxFetches =>
    refine chosen_of_value? count? (fun v hv => ?_) ?_
    · obtain ⟨n, counted⟩ := Option.isSome_iff_exists.mp (counts v (value?_eq_some_iff.mpr hv))
      exact ⟨n, (count?_eq_some_iff.mp counted).1, counted⟩
    · simp [maxFetches, same.maxFetches, ResolveOptions.default]
  case logFilter =>
    refine chosen_of_value? some (fun v _ => ⟨v, rfl, rfl⟩) ?_
    simp [logFilter, same.filter]
  case positive => exact maxFetches_pos h
  case options => exact resolveOptions_eq_ok h

theorem loadFrom_eq (source : ConfigSource) (start : String) :
    loadFrom source start =
      (loadLayer source.files ((findProject source.files start).map (Path.join · projectFile)) >>=
        finish source (findProject source.files start)) := by
  unfold loadFrom
  cases findProject source.files start <;> rfl

end Loading

end Config

namespace Sample

end Sample

end Depot
