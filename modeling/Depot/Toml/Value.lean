import Depot.Binary64

/-!
# TOML values

A table lists its entries in the order in which they were written. Dates and times are kept
as they are written down by the standard for timestamps, with an optional date, time and
offset.
-/

namespace Depot.Toml

open Text

structure Date where
  year : Nat
  month : Nat
  day : Nat
  deriving DecidableEq, Repr

structure Time where
  hour : Nat
  minute : Nat
  second : Nat
  nanosecond : Nat
  deriving DecidableEq, Repr

inductive Offset where
  | utc
  | minutes (east : Int)
  deriving DecidableEq, Repr

structure DateTime where
  date : Option Date
  time : Option Time
  offset : Option Offset
  deriving DecidableEq, Repr

/-- A number with zeros before it up to a width. -/
def padded (width n : Nat) : String :=
  let digits := ofNat n
  repeated '0' (width - digits.length) ++ digits

def Date.text (d : Date) : String :=
  padded 4 d.year ++ "-" ++ padded 2 d.month ++ "-" ++ padded 2 d.day

/-- The fraction ends at its last digit that is not zero. -/
def Time.text (t : Time) : String :=
  let fraction := ((padded 9 t.nanosecond).toList.reverse.dropWhile (· == '0')).reverse
  padded 2 t.hour ++ ":" ++ padded 2 t.minute ++ ":" ++ padded 2 t.second ++
    if fraction.isEmpty then "" else "." ++ String.ofList fraction

def Offset.text : Offset → String
  | .utc => "Z"
  | .minutes m =>
    (if m < 0 then "-" else "+") ++ padded 2 (m.natAbs / 60) ++ ":" ++ padded 2 (m.natAbs % 60)

def DateTime.text (t : DateTime) : String :=
  (t.date.map Date.text).getD "" ++
    (if t.date.isSome && t.time.isSome then "T" else "") ++
    (t.time.map Time.text).getD "" ++ (t.offset.map Offset.text).getD ""

inductive Value where
  | string (s : String)
  | integer (i : Int)
  | float (x : Binary64)
  | boolean (b : Bool)
  | dateTime (t : DateTime)
  | array (elements : List Value)
  | table (entries : List (String × Value))
  deriving Repr

/-- The key that marks a table as a date or time. -/
def dateTimeKey : String := "$__toml_private_datetime"

end Depot.Toml
