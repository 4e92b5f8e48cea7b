import Mathlib.Data.List.Induction
import Depot.Proofs.Config.Precedence

/-!
# Layers

Settings over settings over settings: only the order of the layers counts, not how they are grouped,
and a layer says nothing new where it comes a second time from below. A section is there if some layer
has it, even if it is empty there, and every key has the value of the last layer that sets it.
-/

namespace Depot

attribute [ext] StoreSettings ResolutionSettings LoggingSettings

namespace Settings

/-! ### Sections and keys -/

inductive Section where
  | store
  | resolution
  | logging
  deriving DecidableEq, Repr

/-- Whether a section is there, with or without keys in it. -/
def has (s : Settings) : Section → Bool
  | .store => s.store.isSome
  | .resolution => s.resolution.isSome
  | .logging => s.logging.isSome

theorem isSome_layerWith {α : Type} (f : α → α → α) (lower upper : Option α) :
    (layerWith f lower upper).isSome = (lower.isSome || upper.isSome) := by
  cases lower <;> cases upper <;> rfl

@[simp] theorem has_empty (x : Section) : empty.has x = false := by
  cases x <;> rfl

@[simp] theorem has_merge (lower upper : Settings) (x : Section) :
    (lower.merge upper).has x = (lower.has x || upper.has x) := by
  cases x <;> exact isSome_layerWith _ _ _

/-- Something that a layer sets or leaves open. Of two layers the upper one decides. -/
structure IsKey {α : Type} (key : Settings → Option α) : Prop where
  unset : key empty = none
  merge : ∀ lower upper, key (lower.merge upper) = (key upper).or (key lower)

theorem isKey_root : IsKey root := ⟨rfl, fun _ _ => root_merge.trans Option.orElse_eq_or⟩

theorem isKey_scopes : IsKey scopes := ⟨rfl, fun _ _ => scopes_merge.trans Option.orElse_eq_or⟩

theorem isKey_maxFetches : IsKey maxFetches :=
  ⟨rfl, fun _ _ => maxFetches_merge.trans Option.orElse_eq_or⟩

theorem isKey_filter : IsKey filter := ⟨rfl, fun _ _ => filter_merge.trans Option.orElse_eq_or⟩

/-- Settings are nothing but their sections and the values in them. -/
theorem Same.eq {s t : Settings} (h : s.Same t) (sections : ∀ x, s.has x = t.has x) : s = t := by
  obtain ⟨store, resolution, logging⟩ := s
  obtain ⟨store', resolution', logging'⟩ := t
  have same_store : store = store' := by
    have there := sections .store
    have root := h.root
    cases store <;> cases store' <;> simp_all [has, StoreSettings.ext_iff]
  have same_resolution : resolution = resolution' := by
    have there := sections .resolution
    have scopes := h.scopes
    have maxFetches := h.maxFetches
    cases resolution <;> cases resolution' <;> simp_all [has, ResolutionSettings.ext_iff]
  have same_logging : logging = logging' := by
    have there := sections .logging
    have filter := h.filter
    cases logging <;> cases logging' <;> simp_all [has, LoggingSettings.ext_iff]
  rw [same_store, same_resolution, same_logging]

theorem eq_of_keys {s t : Settings}
    (keys : ∀ {α : Type} {key : Settings → Option α}, IsKey key → key s = key t)
    (sections : ∀ x, s.has x = t.has x) : s = t :=
  Same.eq ⟨keys isKey_root, keys isKey_scopes, keys isKey_maxFetches, keys isKey_filter⟩ sections

/-! ### Laws of layers -/

variable (a b c : Settings)

theorem merge_assoc : (a.merge b).merge c = a.merge (b.merge c) := by
  refine eq_of_keys (fun isKey => ?_) fun x => ?_
  · simp only [isKey.merge, Option.or_assoc]
  · simp only [has_merge, Bool.or_assoc]

theorem empty_merge : empty.merge a = a := by
  refine eq_of_keys (fun isKey => ?_) fun x => ?_
  · rw [isKey.merge, isKey.unset, Option.or_none]
  · rw [has_merge, has_empty, Bool.false_or]

theorem merge_empty : a.merge empty = a := by
  refine eq_of_keys (fun isKey => ?_) fun x => ?_
  · rw [isKey.merge, isKey.unset, Option.none_or]
  · rw [has_merge, has_empty, Bool.or_false]

/-- An older copy of a layer makes no difference below it, whatever lies between. -/
theorem merge_merge_self : (a.merge b).merge a = b.merge a := by
  refine eq_of_keys (fun {_ key} isKey => ?_) fun x => ?_
  · rw [isKey.merge, isKey.merge, isKey.merge]
    cases key a <;> simp
  · rw [has_merge, has_merge, has_merge]
    cases a.has x <;> simp

theorem merge_self : a.merge a = a := by
  simpa only [merge_empty, empty_merge] using merge_merge_self a empty

/-! ### Any number of layers -/

/-- Layers over each other, the first one at the bottom. -/
def stack (layers : List Settings) : Settings := layers.foldl merge empty

@[simp] theorem stack_nil : stack [] = empty := rfl

@[simp] theorem stack_concat (layers : List Settings) (top : Settings) :
    stack (layers ++ [top]) = (stack layers).merge top := List.foldl_concat ..

/-- Some of the layers may be put together first. -/
theorem stack_append (front back : List Settings) :
    stack (front ++ back) = (stack front).merge (stack back) := by
  induction back using List.reverseRecOn with
  | nil => rw [List.append_nil, stack_nil, merge_empty]
  | append_singleton back top ih =>
    rw [← List.append_assoc, stack_concat, ih, stack_concat, merge_assoc]

theorem IsKey.stack {α : Type} {key : Settings → Option α} (isKey : IsKey key)
    (layers : List Settings) : key (stack layers) = (layers.filterMap key).getLast? := by
  induction layers using List.reverseRecOn with
  | nil => exact isKey.unset
  | append_singleton layers top ih =>
    rw [stack_concat, isKey.merge, ih, List.filterMap_append]
    cases set : key top <;> simp [set]

theorem has_stack (layers : List Settings) (x : Section) :
    (stack layers).has x = layers.any fun l => l.has x := by
  induction layers using List.reverseRecOn with
  | nil => exact has_empty x
  | append_singleton layers top ih => simp [ih]

theorem valid_stack {layers : List Settings} (h : ∀ l ∈ layers, l.Valid) : (stack layers).Valid := by
  induction layers using List.reverseRecOn with
  | nil => exact valid_empty
  | append_singleton layers top ih =>
    have below := ih fun l hl => h l (List.mem_append_left _ hl)
    rw [stack_concat, valid_merge below]
    exact h top (by simp)

/-- What is in layers over each other: a section that some layer has, and for each key the last of
the values that the layers set. If every layer passes the check of its values, then so do they all
together. -/
structure Stacked (layers : List Settings) (s : Settings) : Prop where
  sections : ∀ x, s.has x = true ↔ ∃ l ∈ layers, l.has x = true
  root : s.root = (layers.filterMap root).getLast?
  scopes : s.scopes = (layers.filterMap scopes).getLast?
  maxFetches : s.maxFetches = (layers.filterMap maxFetches).getLast?
  filter : s.filter = (layers.filterMap filter).getLast?
  valid : (∀ l ∈ layers, l.validate = .ok ()) → s.validate = .ok ()

theorem stacked_stack (layers : List Settings) : Stacked layers (stack layers) where
  sections x := by rw [has_stack, List.any_eq_true]
  root := isKey_root.stack layers
  scopes := isKey_scopes.stack layers
  maxFetches := isKey_maxFetches.stack layers
  filter := isKey_filter.stack layers
  valid h := validate_eq_ok.mpr (valid_stack fun l hl => validate_eq_ok.mp (h l hl))

/-- Layers can be grouped as one likes, empty settings are no layer at all, a layer over itself is
that layer, and over other layers it makes its own copy below them superfluous. However many layers
there are, the order in which they set a key decides, and nothing else. -/
theorem layers_form_a_band :
    (∀ a b c : Settings, (a.merge b).merge c = a.merge (b.merge c)) ∧
    (∀ a : Settings, empty.merge a = a ∧ a.merge empty = a ∧ a.merge a = a) ∧
    (∀ a b : Settings, (a.merge b).merge a = b.merge a) ∧
    (∀ front back, stack (front ++ back) = (stack front).merge (stack back)) ∧
    ∀ layers, Stacked layers (stack layers) :=
  ⟨merge_assoc, fun a => ⟨empty_merge a, merge_empty a, merge_self a⟩, merge_merge_self,
    stack_append, stacked_stack⟩

end Settings

namespace Sample

/-- Scopes and a limit, then a section that is empty, then another limit and a filter. -/
def layers : List Settings :=
  [⟨none, some ⟨some ["compile"], some 2⟩, none⟩, ⟨some ⟨none⟩, some ⟨none, none⟩, none⟩,
    ⟨none, some ⟨none, some 16⟩, some ⟨some "info"⟩⟩]

end Sample

open Sample in
theorem Settings.layers_form_a_band_sample :
    (∀ l ∈ layers, l.validate = .ok ()) ∧ (stack layers).validate = .ok () ∧
      (stack layers).has .store = true ∧ (stack layers).root = none ∧
      (stack layers).scopes = some ["compile"] ∧ (stack layers).maxFetches = some 16 ∧
      (stack layers).filter = some "info" := by
  obtain ⟨-, -, -, -, stacked⟩ := layers_form_a_band
  have valid : ∀ l ∈ layers, l.validate = .ok () := by decide +kernel
  have s := stacked layers
  exact ⟨valid, s.valid valid, (s.sections .store).mpr ⟨⟨some ⟨none⟩, some ⟨none, none⟩, none⟩,
    by simp [layers], rfl⟩, s.root, s.scopes, s.maxFetches, s.filter⟩

end Depot
