import Depot.Toml.Scan
import Depot.Toml.Value

/-!
# TOML numbers, dates and times

Everything that begins with a sign or a digit. A date or time is tried first, then a float,
then an integer.
-/

namespace Depot.Toml.Scan

open Text

/-- The value of digits that are all of the base. -/
def digitsValue (base : Nat) (cs : List Char) : Nat :=
  cs.foldl (fun n c => n * base + (hexValue? c).getD 0) 0

/-- Digits of a class with single underscores between them. -/
def digits (p : Char → Bool) : Scan (List Char) := do
  let runs ← sepBy1 (takeWhile1 p) (char '_')
  return runs.flatten

def sign : Scan Bool := (do char '-'; return true) <|> (do char '+'; return false) <|> return false

/-- Decimal digits without a zero before others. -/
def wholeDigits : Scan (List Char) := do
  let ds ← digits Char.isDigit
  guard (ds.length = 1 ∨ ds.head? ≠ some '0')
  return ds

/-- Signed 64-bit integers. -/
def inRange (i : Int) : Bool := -9223372036854775808 ≤ i && i ≤ 9223372036854775807

def based (mark : String) (base : Nat) (p : Char → Bool) : Scan Int := do
  word mark
  return (digitsValue base (← digits p) : Int)

def decimalInteger : Scan Int := do
  let negative ← sign
  let n : Int := digitsValue 10 (← wholeDigits)
  return if negative then -n else n

def integer : Scan Int := do
  let i ← based "0x" 16 (fun c => (hexValue? c).isSome) <|>
    based "0o" 8 (fun c => '0' ≤ c && c ≤ '7') <|>
    based "0b" 2 (fun c => c == '0' || c == '1') <|> decimalInteger
  guard (inRange i)
  return i

def fraction : Scan (List Char) := do
  char '.'
  digits Char.isDigit

def exponent : Scan Int := do
  let _ ← satisfy (fun c => c == 'e' || c == 'E')
  let negative ← sign
  let n : Int := digitsValue 10 (← digits Char.isDigit)
  return if negative then -n else n

/-- A float has a fraction or an exponent, or is one of the words. A decimal above all numbers
is refused; below all of them it is minus infinity. -/
def float : Scan Binary64 := do
  let negative ← sign
  (do word "inf"; return .infinite negative) <|> (do word "nan"; return .nan) <|> do
    let whole ← wholeDigits
    let part ← optional fraction
    let e ← optional exponent
    guard (part.isSome || e.isSome)
    let places := part.getD []
    let x := Binary64.ofDecimal negative (digitsValue 10 (whole ++ places))
      (e.getD 0 - places.length)
    guard (x ≠ .infinite false)
    return x

/-- A number of exactly so many digits within bounds. -/
def field (width low high : Nat) : Scan Nat := fun s => do
  let ds := s.take width
  guard (ds.length = width && ds.all Char.isDigit)
  let n := digitsValue 10 ds
  guard (low ≤ n ∧ n ≤ high)
  return (n, s.drop width)

def isLeapYear (y : Nat) : Bool := y % 4 == 0 && (y % 100 != 0 || y % 400 == 0)

def daysIn (year month : Nat) : Nat :=
  match month with
  | 2 => if isLeapYear year then 29 else 28
  | 4 | 6 | 9 | 11 => 30
  | _ => 31

def date : Scan Date := do
  let y ← field 4 0 9999
  char '-'
  let m ← field 2 1 12
  char '-'
  let d ← field 2 1 (daysIn y m)
  return ⟨y, m, d⟩

/-- Digits after the ninth are dropped. -/
def nanoseconds (ds : List Char) : Nat :=
  digitsValue 10 ((ds ++ List.replicate 9 '0').take 9)

/-- A minute may have a sixty-first second. -/
def time : Scan Time := do
  let h ← field 2 0 23
  char ':'
  let m ← field 2 0 59
  char ':'
  let s ← field 2 0 60
  let f ← optional (do char '.'; takeWhile1 Char.isDigit)
  return ⟨h, m, s, nanoseconds (f.getD [])⟩

def offset : Scan Offset :=
  (do let _ ← satisfy (fun c => c == 'Z' || c == 'z'); return .utc) <|> do
    let negative ← (do char '-'; return true) <|> (do char '+'; return false)
    let h ← field 2 0 23
    char ':'
    let m ← field 2 0 59
    let east : Int := h * 60 + m
    return .minutes (if negative then -east else east)

def timeOnDate : Scan (Time × Option Offset) := do
  let _ ← satisfy (fun c => c == 'T' || c == 't' || c == ' ')
  let t ← time
  return (t, ← optional offset)

/-- A date, a time, or both. Only both together have an offset. -/
def dateTime : Scan DateTime :=
  (do
    let d ← date
    match ← optional timeOnDate with
    | none => return ⟨some d, none, none⟩
    | some (t, o) => return ⟨some d, some t, o⟩) <|>
  (do return ⟨none, some (← time), none⟩)

def number : Scan Value :=
  (do return .dateTime (← dateTime)) <|> (do return .float (← float)) <|>
    (do return .integer (← integer))

end Depot.Toml.Scan
