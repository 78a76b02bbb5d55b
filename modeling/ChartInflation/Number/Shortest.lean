import ChartInflation.Number.Binary64

/-!
# The shortest decimal of a binary64 number

Among the decimals that read back as a given finite number, `shortest` takes one of the fewest
digits and, of those, the one nearest to the number; a tie goes to the even last digit.  `text`
writes it as a `DecimalStyle` says: with a point as long as that takes few digits, and with an
exponent otherwise.
-/

set_option autoImplicit false

namespace ChartInflation

namespace Binary64

/-- The decimals that read back as a positive number, as an interval of fractions of one
denominator; its ends belong to it when `closed`. -/
structure Interval where
  low : Nat
  value : Nat
  high : Nat
  denominator : Nat
  closed : Bool
deriving Repr

/-- The interval of the reals that round to `x`.  Below a power of two the numbers lie twice as
dense, so the half gap there is half as wide. -/
def interval (x : Binary64) : Interval :=
  let (m, q) := x.magnitude
  let below := if x.fractionField = 0 ∧ x.exponentField > 1 then 1 else 2
  let closed := m % 2 == 0
  if q ≥ 0 then
    let unit := Nat.pow 2 q.toNat
    ⟨(4 * m - below) * unit, 4 * m * unit, (4 * m + 2) * unit, 4, closed⟩
  else
    ⟨4 * m - below, 4 * m, 4 * m + 2, 4 * Nat.pow 2 (-q).toNat, closed⟩

def Interval.inUnits (i : Interval) (place : Int) : Interval :=
  if place ≥ 0 then { i with denominator := i.denominator * Nat.pow 10 place.toNat }
  else
    let ten := Nat.pow 10 (-place).toNat
    { i with low := i.low * ten, value := i.value * ten, high := i.high * ten }

def Interval.holds (i : Interval) (n : Nat) : Bool :=
  let units := n * i.denominator
  if i.closed then i.low ≤ units && units ≤ i.high else i.low < units && units < i.high

/-- The whole number of units nearest to the value among those of its two neighbours that lie in
the interval. -/
def Interval.nearest? (i : Interval) : Option Nat :=
  let down := i.value / i.denominator
  let twice := 2 * (i.value % i.denominator)
  let up := down + 1
  match i.holds down, i.holds up with
  | false, false => none
  | true, false => some down
  | false, true => some up
  | true, true =>
    if twice < i.denominator then some down
    else if twice = i.denominator then some (if down % 2 = 0 then down else up)
    else some up

/-- The exponent of ten that the value lies at or above, given that it is off by at most one. -/
def Interval.decimalExponent (i : Interval) : Int :=
  let bits : Int := (i.value.log2 : Int) - (i.denominator.log2 : Int)
  let guess : Int := (bits - 1) * 30103 / 100000
  let reaches (e : Int) : Bool :=
    let unit := i.inUnits e
    unit.value ≥ unit.denominator
  if reaches (guess + 2) then guess + 2
  else if reaches (guess + 1) then guess + 1
  else if reaches guess then guess
  else guess - 1

def Interval.search (i : Interval) : Nat → Int → Nat × Int
  | 0, place => (i.value / i.denominator, place)
  | fuel + 1, place =>
    match (i.inUnits place).nearest? with
    | some digits => (digits, place)
    | none => i.search fuel (place - 1)

def dropZeros : Nat → Nat → Int → Nat × Int
  | 0, digits, place => (digits, place)
  | fuel + 1, digits, place =>
    if digits ≠ 0 ∧ digits % 10 = 0 then dropZeros fuel (digits / 10) (place + 1)
    else (digits, place)

/-- The shortest decimal `digits · 10 ^ place` of a positive finite number.  Seventeen digits
always suffice. -/
def shortest (x : Binary64) : Nat × Int :=
  let i := x.interval
  let (digits, place) := i.search 18 (i.decimalExponent + 1)
  dropZeros 18 digits place

def zeros (n : Nat) : String :=
  String.ofList (List.replicate n '0')

structure DecimalStyle where
  /-- How many digits may stand in front of the point. -/
  wholeDigits : Nat
  /-- How many zeros may stand between the point and the first digit. -/
  leadingZeros : Nat
  /-- The mark in front of an exponent that is not negative; a negative one has `e` alone. -/
  exponentMark : String
deriving DecidableEq, Repr

def decimalText (style : DecimalStyle) (digits : Nat) (place : Int) : String :=
  let ds := Nat.toDigits 10 digits
  let length : Int := ds.length
  let point := length + place
  if 0 ≤ place ∧ point ≤ style.wholeDigits then
    String.ofList ds ++ zeros place.toNat ++ ".0"
  else if 0 < point ∧ point ≤ style.wholeDigits then
    String.ofList (ds.take point.toNat) ++ "." ++ String.ofList (ds.drop point.toNat)
  else if point ≤ 0 ∧ -point ≤ style.leadingZeros then
    "0." ++ zeros (-point).toNat ++ String.ofList ds
  else
    let mantissa :=
      if ds.length = 1 then String.ofList ds
      else String.ofList (ds.take 1) ++ "." ++ String.ofList (ds.drop 1)
    mantissa ++ (if point < 1 then "e" else style.exponentMark) ++ toString (point - 1)

def text (style : DecimalStyle) (x : Binary64) : String :=
  let sign := if x.negative then "-" else ""
  if x.isZero then sign ++ "0.0"
  else
    let (digits, place) := x.shortest
    sign ++ decimalText style digits place

end Binary64

end ChartInflation
