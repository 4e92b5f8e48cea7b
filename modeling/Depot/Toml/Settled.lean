import Depot.Toml.Number

/-!
# Settled values

A table whose first key is the one that marks dates and times stands for a date or time, and
nothing else in it counts. In all other tables the entries come by increasing key. A value is
settled from the outside in, so what lies in a table that stands for a date or time may be
anything.
-/

namespace Depot.Toml

def insertByKey (e : String × Value) : List (String × Value) → List (String × Value)
  | [] => [e]
  | x :: xs => if e.1 < x.1 then e :: x :: xs else x :: insertByKey e xs

def sortByKey (es : List (String × Value)) : List (String × Value) :=
  es.foldr insertByKey []

/-- A whole text as a date or time. -/
def dateTime? (s : String) : Option DateTime :=
  match Scan.dateTime s.toList with
  | some (t, []) => some t
  | _ => none

/-- The date or time that a value under the marking key is. -/
def Value.marked? : Value → Option DateTime
  | .string s => dateTime? s
  | _ => none

mutual

/-- The settled value. It is missing if something marked as a date or time is none. -/
def Value.settle? : Value → Option Value
  | .array vs => (settleElements? vs).map .array
  | .table ((k, v) :: es) =>
    if k = dateTimeKey then v.marked?.map .dateTime
    else do
      let v ← v.settle?
      return .table (sortByKey ((k, v) :: (← settleEntries? es)))
  | v => some v

def settleElements? : List Value → Option (List Value)
  | [] => some []
  | v :: vs => return (← v.settle?) :: (← settleElements? vs)

def settleEntries? : List (String × Value) → Option (List (String × Value))
  | [] => some []
  | (k, v) :: es => return (k, ← v.settle?) :: (← settleEntries? es)

end

end Depot.Toml
