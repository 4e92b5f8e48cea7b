import Depot.Coordinate

/-!
# Version conflicts

When an identity is met again in another version, the entry that was selected first stays and
the other version is written into a log. The log has one conflict for each identity, in the
order in which the conflicts were first seen.
-/

namespace Depot

open Text

/-- A version that was not taken. Roots are met through no other package. -/
structure Omission where
  version : String
  depth : Nat
  via : Option Coordinate
  deriving DecidableEq, Repr

structure Conflict where
  selected : Coordinate
  depth : Nat
  omitted : List Omission
  deriving DecidableEq, Repr

def Omission.report (o : Omission) : String :=
  "  omitted " ++ o.version ++ " (depth " ++ ofNat o.depth ++
    (match o.via with
      | some c => ", via " ++ c.text
      | none => ", requested as root") ++ ")\n"

namespace Conflict

def identity (c : Conflict) : Identity := c.selected.identity

/-- One line for the selected version and one for each omitted one. -/
def report (c : Conflict) : String :=
  "Version conflict for '" ++ c.identity.text ++ "': selected " ++ c.selected.version ++
    " (depth " ++ ofNat c.depth ++ ")\n" ++ String.join (c.omitted.map Omission.report)

/-- The same omission is noted once. -/
def note (o : Omission) (c : Conflict) : Conflict :=
  if o ∈ c.omitted then c else { c with omitted := c.omitted ++ [o] }

@[simp] theorem identity_note (o : Omission) (c : Conflict) : (c.note o).identity = c.identity := by
  unfold note; split <;> rfl

/-- Log that a version lost against a coordinate selected at a depth. Meeting the selected
version again is no conflict. -/
def record (selected : Coordinate) (depth : Nat) (o : Omission) (log : List Conflict) :
    List Conflict :=
  if o.version = selected.version then log
  else if log.any (·.identity = selected.identity) then
    log.map fun c => if c.identity = selected.identity then c.note o else c
  else log ++ [⟨selected, depth, [o]⟩]

end Conflict

end Depot
