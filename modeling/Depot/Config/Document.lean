import Depot.Config.Settings
import Depot.Toml.Document

/-!
# Settings in TOML

A section is a table with known keys only, or an array with the values of all its keys in
order. Values have exactly the type of their key.
-/

namespace Depot.Settings

open Toml

def toText? : Value → Option String
  | .string s => some s
  | _ => none

def toTexts? : Value → Option (List String)
  | .array vs => vs.mapM toText?
  | _ => none

def toCount? : Value → Option Nat
  | .integer (.ofNat n) => some n
  | _ => none

/-- The values of the keys of a section. In a table each may be missing; in an array none, and
what comes after them is not looked at. -/
def section? (keys : List String) : Value → Option (List (Option Value))
  | .table entries =>
    if entries.all fun e => keys.contains e.1 then some (keys.map fun k => entries.lookup k)
    else none
  | .array vs =>
    if keys.length ≤ vs.length then some ((vs.take keys.length).map some) else none
  | _ => none

/-- A missing value stays missing; one of the wrong type is refused. -/
def typed? {α : Type} (read : Value → Option α) : Option Value → Option (Option α)
  | none => some none
  | some v => (read v).map some

def storeSection? (v : Value) : Option StoreSettings := do
  match ← section? ["root"] v with
  | [root] => return ⟨← typed? toText? root⟩
  | _ => failure

def resolutionSection? (v : Value) : Option ResolutionSettings := do
  match ← section? ["scopes", "max_concurrent_fetches"] v with
  | [scopes, maxFetches] => return ⟨← typed? toTexts? scopes, ← typed? toCount? maxFetches⟩
  | _ => failure

def loggingSection? (v : Value) : Option LoggingSettings := do
  match ← section? ["filter"] v with
  | [filter] => return ⟨← typed? toText? filter⟩
  | _ => failure

def sections : List String := ["store", "resolution", "logging"]

def ofEntries? (entries : List (String × Value)) : Option Settings := do
  guard (entries.all fun e => sections.contains e.1)
  return ⟨← typed? storeSection? (entries.lookup "store"),
    ← typed? resolutionSection? (entries.lookup "resolution"),
    ← typed? loggingSection? (entries.lookup "logging")⟩

/-- The settings in a text, unless it is no TOML or has anything else in it. -/
def ofText? (s : String) : Option Settings := do ofEntries? (← read? s)

end Depot.Settings
