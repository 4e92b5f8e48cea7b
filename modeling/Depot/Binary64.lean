import Depot.Text

/-!
# Binary floating point

Numbers of the form `m * 2 ^ q` with 53 bits of precision, read from decimals and written as
decimals in exact integer arithmetic. Reading rounds to the nearest number, ties to an even
`m`. Writing takes the coarsest decimal grid with a point that reads back.
-/

namespace Depot

open Text

inductive Binary64 where
  | finite (negative : Bool) (m : Nat) (q : Int)
  | infinite (negative : Bool)
  | nan
  deriving DecidableEq, Repr

namespace Binary64

/-- The quotient rounded to the nearest integer, ties to even. -/
def roundDiv (n d : Nat) : Nat :=
  let k := n / d
  let r := n % d
  if 2 * r < d then k else if 2 * r > d then k + 1 else if k % 2 = 0 then k else k + 1

/-- The quotient `n / d * 2 ^ (-q)` with both sides whole. -/
def scaled (n d : Nat) (q : Int) : Nat × Nat :=
  match q with
  | .ofNat k => (n, d * Nat.pow 2 k)
  | .negSucc k => (n * Nat.pow 2 (k + 1), d)

/-- The least exponent with which a quotient fits 53 bits, never below that of the subnormal
numbers. -/
def exponentFor (n d : Nat) : Int :=
  let q : Int := (n.log2 : Int) - d.log2 - 53
  let (a, b) := scaled n d q
  max (-1074) (if a / b < Nat.pow 2 53 then q else q + 1)

/-- The number nearest to a quotient. -/
def ofRatio (negative : Bool) (n d : Nat) : Binary64 :=
  if n = 0 then finite negative 0 (-1074)
  else
    let q := exponentFor n d
    let (a, b) := scaled n d q
    let m := roundDiv a b
    let (m, q) := if m = Nat.pow 2 53 then (Nat.pow 2 52, q + 1) else (m, q)
    if q > 971 then infinite negative else finite negative m q

/-- The number nearest to `n * 10 ^ e`. Beyond four hundred places the answer is known without
the power. -/
def ofDecimal (negative : Bool) (n : Nat) (e : Int) : Binary64 :=
  let size : Int := (Nat.toDigits 10 n).length + e
  if n = 0 ∨ size < -400 then finite negative 0 (-1074)
  else if size > 400 then infinite negative
  else match e with
    | .ofNat k => ofRatio negative (n * Nat.pow 10 k) 1
    | .negSucc k => ofRatio negative n (Nat.pow 10 (k + 1))

/-- Four times `m`, and the ends of the interval of reals that round to `m * 2 ^ q`. Below a
power of two the numbers lie twice as close. -/
def interval (m : Nat) (q : Int) : Nat × Nat × Nat :=
  (if m = Nat.pow 2 52 ∧ q > -1074 then 4 * m - 1 else 4 * m - 2, 4 * m, 4 * m + 2)

/-- A power of the base as a fraction. -/
def power (base : Nat) (e : Int) : Nat × Nat :=
  if e < 0 then (1, Nat.pow base (-e).toNat) else (Nat.pow base e.toNat, 1)

/-- The multiple of `10 ^ j` nearest to `m * 2 ^ q` among those that round to it. -/
def onGrid? (m : Nat) (q j : Int) : Option Nat :=
  let (low, mid, high) := interval m q
  let (gridNum, gridDen) := power 10 j
  let (binNum, binDen) := power 2 q
  let point : Nat → Nat := fun k => k * gridNum * 4 * binDen
  let bound : Nat → Nat := fun b => b * binNum * gridDen
  let inside : Nat → Bool := fun k =>
    if m % 2 = 0 then bound low ≤ point k && point k ≤ bound high
    else bound low < point k && point k < bound high
  let below := bound mid / (gridNum * 4 * binDen)
  let above := below + 1
  match inside below, inside above with
  | true, true =>
    if bound mid - point below < point above - bound mid then some below else some above
  | true, false => some below
  | false, true => some above
  | false, false => none

/-- The shortest decimal that reads back, as a count of a power of ten. -/
def shortest (m : Nat) (q : Int) : Nat × Int :=
  ((List.range 640).findSome? fun (i : Nat) =>
    let j : Int := 309 - i
    (onGrid? m q j).map (·, j)).getD (0, 0)

/-- Digits with a point among or after them, never an exponent. -/
def positional (n : Nat) (e : Int) : String :=
  match e with
  | .ofNat k => ofNat n ++ repeated '0' k ++ ".0"
  | .negSucc k =>
    let places := k + 1
    let digits := ofNat n
    let padded := repeated '0' (places + 1 - digits.length) ++ digits
    let whole := padded.length - places
    String.ofList (padded.toList.take whole) ++ "." ++ String.ofList (padded.toList.drop whole)

def text : Binary64 → String
  | nan => "nan"
  | infinite negative => if negative then "-inf" else "inf"
  | finite negative m q =>
    let (n, e) := if m = 0 then (0, 0) else shortest m q
    (if negative then "-" else "") ++ positional n e

end Binary64

end Depot
