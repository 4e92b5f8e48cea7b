import Depot.Scope
import Depot.Toml.Value

/-!
# Settings

What a configuration file can set. Every section and every key may be missing, and one layer
of settings goes over another key by key.
-/

namespace Depot

open Text

structure StoreSettings where
  root : Option String
  deriving DecidableEq, Repr

structure ResolutionSettings where
  scopes : Option (List String)
  maxFetches : Option Nat
  deriving DecidableEq, Repr

structure LoggingSettings where
  filter : Option String
  deriving DecidableEq, Repr

structure Settings where
  store : Option StoreSettings
  resolution : Option ResolutionSettings
  logging : Option LoggingSettings
  deriving DecidableEq, Repr

/-- A value that cannot be used. -/
inductive SettingFault where
  | noScopes
  | unknownScope (name : String)
  | noFetches
  | emptyFilter
  | badCount (name text : String)
  deriving DecidableEq, Repr

namespace SettingFault

def field : SettingFault → String
  | noScopes => "resolution.scopes"
  | unknownScope _ => "resolution.scopes"
  | noFetches => "resolution.max_concurrent_fetches"
  | emptyFilter => "logging.filter"
  | badCount n _ => n

def reason : SettingFault → String
  | noScopes => "must name at least one scope"
  | unknownScope n =>
    "unknown scope '" ++ n ++ "', expected one of " ++ join ", " (Scope.all.map Scope.name)
  | noFetches => "must be at least 1"
  | emptyFilter => "must not be empty"
  | badCount _ t => "expected a positive integer, got '" ++ t ++ "'"

def message (f : SettingFault) : String :=
  "Invalid value for '" ++ f.field ++ "': " ++ f.reason

end SettingFault

/-- The scopes of a list of names, each of which must be known. -/
def scopesOfNames : List String → Except SettingFault (List Scope)
  | [] => .ok []
  | n :: ns =>
    match Scope.parse? n with
    | some s => (scopesOfNames ns).map (s :: ·)
    | none => .error (.unknownScope n)

/-- The set of the scopes that a setting names. There must be one at least. -/
def parseScopes (names : List String) : Except SettingFault ScopeSet :=
  if names.isEmpty then .error .noScopes else (scopesOfNames names).map OrderedSet.ofList

/-- The upper value where there is one. -/
def layer {α : Type} (lower upper : Option α) : Option α := upper <|> lower

/-- Sections that are in both layers go over each other. -/
def layerWith {α : Type} (merge : α → α → α) : Option α → Option α → Option α
  | none, upper => upper
  | some lower, none => some lower
  | some lower, some upper => some (merge lower upper)

def StoreSettings.merge (lower upper : StoreSettings) : StoreSettings :=
  ⟨layer lower.root upper.root⟩

def ResolutionSettings.merge (lower upper : ResolutionSettings) : ResolutionSettings :=
  ⟨layer lower.scopes upper.scopes, layer lower.maxFetches upper.maxFetches⟩

def LoggingSettings.merge (lower upper : LoggingSettings) : LoggingSettings :=
  ⟨layer lower.filter upper.filter⟩

namespace Settings

def empty : Settings := ⟨none, none, none⟩

/-- Lay settings over others: the keys that the upper ones set win. -/
def merge (lower upper : Settings) : Settings :=
  ⟨layerWith StoreSettings.merge lower.store upper.store,
    layerWith ResolutionSettings.merge lower.resolution upper.resolution,
    layerWith LoggingSettings.merge lower.logging upper.logging⟩

def root (s : Settings) : Option String := s.store.bind StoreSettings.root

def scopes (s : Settings) : Option (List String) := s.resolution.bind ResolutionSettings.scopes

def maxFetches (s : Settings) : Option Nat := s.resolution.bind ResolutionSettings.maxFetches

def filter (s : Settings) : Option String := s.logging.bind LoggingSettings.filter

/-- Settings with nothing but the given key. -/
def ofRoot (r : String) : Settings := ⟨some ⟨some r⟩, none, none⟩

def ofScopes (names : List String) : Settings := ⟨none, some ⟨some names, none⟩, none⟩

def ofMaxFetches (n : Nat) : Settings := ⟨none, some ⟨none, some n⟩, none⟩

def ofFilter (f : String) : Settings := ⟨none, none, some ⟨some f⟩⟩

def validateScopes (s : Settings) : Except SettingFault Unit :=
  match s.scopes with
  | none => .ok ()
  | some names => (parseScopes names).map fun _ => ()

def validateFetches (s : Settings) : Except SettingFault Unit :=
  if s.maxFetches = some 0 then .error .noFetches else .ok ()

def validateFilter (s : Settings) : Except SettingFault Unit :=
  match s.filter with
  | none => .ok ()
  | some f => if trim f = "" then .error .emptyFilter else .ok ()

/-- The first value that cannot be used. -/
def validate (s : Settings) : Except SettingFault Unit := do
  s.validateScopes
  s.validateFetches
  s.validateFilter

end Settings

end Depot
