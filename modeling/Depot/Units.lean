import Depot.Cache

/-!
# Loaded units

A bundle for each set of roots, loaded from one particular cached resolution. Asking with
another one for the same roots gives up the old bundle. A failed load leaves its slot empty,
and the next caller loads again.
-/

namespace Depot

/-- The number tells bundles apart that hold the same. -/
structure LoadedUnit where
  number : Nat
  bundle : Bundle
  deriving DecidableEq, Repr

structure UnitSlot where
  number : Nat
  key : RootKey
  source : Nat
  mapped : Bool
  loaded : Option LoadedUnit
  deriving Repr

structure Units where
  slots : List UnitSlot
  next : Nat
  deriving Repr

namespace Units

def empty : Units := ⟨[], 0⟩

/-- The number of slots, empty ones included. -/
def size (u : Units) : Nat := u.slots.countP UnitSlot.mapped

def slot? (u : Units) (number : Nat) : Option UnitSlot := u.slots.find? (·.number = number)

def mapped? (u : Units) (k : RootKey) : Option UnitSlot :=
  u.slots.find? fun s => s.mapped && s.key = k

def evict (k : RootKey) (u : Units) : Bool × Units :=
  ((u.mapped? k).isSome,
    { u with slots := u.slots.map fun s => { s with mapped := s.mapped && s.key ≠ k } })

def create (r : CachedResolution) (u : Units) : UnitSlot × Units :=
  let s : UnitSlot := ⟨u.next, r.key, r.number, true, none⟩
  (s, { u with slots := u.slots ++ [s], next := u.next + 1 })

/-- The slot for exactly this resolution. -/
def start (r : CachedResolution) (u : Units) : UnitSlot × Units :=
  match u.mapped? r.key with
  | none => u.create r
  | some s => if s.source = r.number then (s, u) else (u.evict r.key).2.create r

/-- Answer the unit of a slot, or load it. -/
def finish (number : Nat) (load : Except LoadError Bundle) (u : Units) :
    Except LoadError LoadedUnit × Units :=
  match (u.slot? number).bind UnitSlot.loaded, load with
  | some unit, _ => (.ok unit, u)
  | none, .error e => (.error e, u)
  | none, .ok b =>
    let unit : LoadedUnit := ⟨number, b⟩
    (.ok unit, { u with
      slots := u.slots.map fun s => if s.number = number then { s with loaded := some unit } else s })

/-- Forget the slots that were given up. -/
def settle (u : Units) : Units := { u with slots := u.slots.filter UnitSlot.mapped }

end Units

end Depot
