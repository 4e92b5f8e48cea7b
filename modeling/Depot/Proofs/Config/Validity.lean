import Depot.Config.Settings
import Depot.Proofs.Store.Manifests

/-!
# Valid settings

Which settings pass the check of their values, and what is left of that when one layer of settings
goes over another: every key has the upper value where there is one, and the lower value otherwise.
So settings over valid ones are valid exactly if what they set themselves is.
-/

namespace Depot

open Text

/-! ### Names of scopes -/

/-- At least one name, and only names of scopes. -/
structure NameScopes (names : List String) : Prop where
  some : names ≠ []
  known : ∀ n ∈ names, (Scope.parse? n).isSome

theorem scopesOfNames_eq_ok {names : List String} {scopes : List Scope} :
    scopesOfNames names = .ok scopes ↔
      (∀ n ∈ names, (Scope.parse? n).isSome) ∧ names.filterMap Scope.parse? = scopes := by
  induction names generalizing scopes with
  | nil => simp [scopesOfNames]
  | cons n rest ih =>
    unfold scopesOfNames
    rw [List.forall_mem_cons]
    cases known : Scope.parse? n with
    | none => simp
    | some s =>
      rw [List.filterMap_cons_some known]
      simp only [map_eq_ok, ih, Option.isSome_some, true_and, and_assoc]
      simp

theorem parseScopes_eq_ok {names : List String} {scopes : ScopeSet} :
    parseScopes names = .ok scopes ↔ NameScopes names ∧ .ofNames names = scopes := by
  unfold parseScopes
  by_cases none : names = []
  · subst none
    exact ⟨nofun, fun h => absurd rfl h.1.some⟩
  rw [if_neg (by simpa using none), map_eq_ok]
  constructor
  · rintro ⟨ss, found, rfl⟩
    obtain ⟨known, rfl⟩ := scopesOfNames_eq_ok.mp found
    exact ⟨⟨none, known⟩, rfl⟩
  · rintro ⟨named, rfl⟩
    exact ⟨_, scopesOfNames_eq_ok.mpr ⟨named.known, rfl⟩, rfl⟩

namespace Settings

/-- Every value that is set can be used. -/
structure Valid (s : Settings) : Prop where
  scopes : ∀ names ∈ s.scopes, NameScopes names
  fetches : ∀ n ∈ s.maxFetches, 1 ≤ n
  filter : ∀ f ∈ s.filter, trim f ≠ ""

theorem validateScopes_eq_ok {s : Settings} :
    s.validateScopes = .ok () ↔ ∀ names ∈ s.scopes, NameScopes names := by
  unfold validateScopes
  cases s.scopes with
  | none => simp
  | some names => simp [map_eq_ok, parseScopes_eq_ok]

theorem validateFetches_eq_ok {s : Settings} :
    s.validateFetches = .ok () ↔ ∀ n ∈ s.maxFetches, 1 ≤ n := by
  unfold validateFetches
  cases s.maxFetches with
  | none => simp
  | some n => simp [Nat.one_le_iff_ne_zero]

theorem validateFilter_eq_ok {s : Settings} :
    s.validateFilter = .ok () ↔ ∀ f ∈ s.filter, trim f ≠ "" := by
  unfold validateFilter
  cases s.filter with
  | none => simp
  | some f => simp

/-- The check of the values goes through exactly if all of them can be used. -/
theorem validate_eq_ok {s : Settings} : s.validate = .ok () ↔ s.Valid := by
  constructor
  · intro h
    obtain ⟨_, scopes, h⟩ := exists_ok_of_bind h
    obtain ⟨_, fetches, filter⟩ := exists_ok_of_bind h
    exact ⟨validateScopes_eq_ok.mp scopes, validateFetches_eq_ok.mp fetches,
      validateFilter_eq_ok.mp filter⟩
  · intro h
    rw [validate, validateScopes_eq_ok.mpr h.scopes, validateFetches_eq_ok.mpr h.fetches]
    exact validateFilter_eq_ok.mpr h.filter

theorem valid_empty : empty.Valid where
  scopes := nofun
  fetches := nofun
  filter := nofun

/-! ### Layers -/

variable {lower upper : Settings}

section Keys

variable {store : Option StoreSettings} {resolution : Option ResolutionSettings}
  {logging : Option LoggingSettings}

@[simp] theorem root_mk : (mk store resolution logging).root = store.bind StoreSettings.root := rfl

@[simp] theorem scopes_mk :
    (mk store resolution logging).scopes = resolution.bind ResolutionSettings.scopes := rfl

@[simp] theorem maxFetches_mk :
    (mk store resolution logging).maxFetches = resolution.bind ResolutionSettings.maxFetches := rfl

@[simp] theorem filter_mk :
    (mk store resolution logging).filter = logging.bind LoggingSettings.filter := rfl

end Keys

@[simp] theorem root_merge : (lower.merge upper).root = (upper.root <|> lower.root) := by
  obtain ⟨_ | l, _, _⟩ := lower <;> obtain ⟨_ | u, _, _⟩ := upper <;>
    simp [merge, layerWith, StoreSettings.merge, layer]

@[simp] theorem scopes_merge : (lower.merge upper).scopes = (upper.scopes <|> lower.scopes) := by
  obtain ⟨_, _ | l, _⟩ := lower <;> obtain ⟨_, _ | u, _⟩ := upper <;>
    simp [merge, layerWith, ResolutionSettings.merge, layer]

@[simp] theorem maxFetches_merge :
    (lower.merge upper).maxFetches = (upper.maxFetches <|> lower.maxFetches) := by
  obtain ⟨_, _ | l, _⟩ := lower <;> obtain ⟨_, _ | u, _⟩ := upper <;>
    simp [merge, layerWith, ResolutionSettings.merge, layer]

@[simp] theorem filter_merge : (lower.merge upper).filter = (upper.filter <|> lower.filter) := by
  obtain ⟨_, _, _ | l⟩ := lower <;> obtain ⟨_, _, _ | u⟩ := upper <;>
    simp [merge, layerWith, LoggingSettings.merge, layer]

/-- An upper value is there in any case; a lower one only where no upper one is. -/
theorem forall_mem_orElse {α : Type} {p : α → Prop} (high : Option α) {low : Option α}
    (h : ∀ x ∈ low, p x) : (∀ x ∈ (high <|> low), p x) ↔ ∀ x ∈ high, p x := by
  cases high with
  | none => simpa using h
  | some x => simp

/-- Over valid settings, only what the upper ones set can be wrong. -/
theorem valid_merge (h : lower.Valid) : (lower.merge upper).Valid ↔ upper.Valid := by
  have scopes := forall_mem_orElse upper.scopes h.scopes
  have fetches := forall_mem_orElse upper.maxFetches h.fetches
  have filter := forall_mem_orElse upper.filter h.filter
  rw [← scopes_merge] at scopes
  rw [← maxFetches_merge] at fetches
  rw [← filter_merge] at filter
  exact ⟨fun m => ⟨scopes.mp m.scopes, fetches.mp m.fetches, filter.mp m.filter⟩,
    fun u => ⟨scopes.mpr u.scopes, fetches.mpr u.fetches, filter.mpr u.filter⟩⟩

end Settings

end Depot
