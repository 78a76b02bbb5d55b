/-!
# Binary floating-point numbers of 64 bits

A number is its bit pattern: a sign, an exponent field of eleven bits and a fraction field of
fifty-two.  A finite number is `magnitude.1 · 2 ^ magnitude.2` with its sign.  `ofDecimal` rounds an
exact decimal to the nearest number, a tie going to the even one.
-/

set_option autoImplicit false

namespace ChartInflation

structure Binary64 where
  bits : UInt64
deriving DecidableEq, Repr

namespace Binary64

def negative (x : Binary64) : Bool :=
  x.bits.toNat ≥ Nat.pow 2 63

def exponentField (x : Binary64) : Nat :=
  x.bits.toNat / Nat.pow 2 52 % Nat.pow 2 11

def fractionField (x : Binary64) : Nat :=
  x.bits.toNat % Nat.pow 2 52

def isNan (x : Binary64) : Bool :=
  x.exponentField == 2047 && x.fractionField != 0

def isInfinite (x : Binary64) : Bool :=
  x.exponentField == 2047 && x.fractionField == 0

def isFinite (x : Binary64) : Bool :=
  x.exponentField != 2047

def isZero (x : Binary64) : Bool :=
  x.exponentField == 0 && x.fractionField == 0

/-- The size of a finite number as `m · 2 ^ q`. -/
def magnitude (x : Binary64) : Nat × Int :=
  if x.exponentField = 0 then (x.fractionField, -1074)
  else (Nat.pow 2 52 + x.fractionField, (x.exponentField : Int) - 1075)

/-- Numerical equality, except that all not-a-numbers are one: the two zeros are equal. -/
def same (x y : Binary64) : Bool :=
  if x.isNan || y.isNan then x.isNan && y.isNan
  else x.bits == y.bits || (x.isZero && y.isZero)

def infinity : Binary64 := ⟨0x7FF0000000000000⟩

def negativeInfinity : Binary64 := ⟨0xFFF0000000000000⟩

def nan : Binary64 := ⟨0x7FF8000000000000⟩

def negate (x : Binary64) : Binary64 :=
  ⟨x.bits ^^^ 0x8000000000000000⟩

/-- A quotient rounded to the nearest natural number, a half going to the even neighbour. -/
def roundQuotient (num den : Nat) : Nat :=
  let whole := num / den
  let twice := 2 * (num % den)
  if twice < den then whole
  else if twice = den then whole + whole % 2
  else whole + 1

def scaled (num den : Nat) (q : Int) : Nat × Nat :=
  if q ≥ 0 then (num, den * Nat.pow 2 q.toNat) else (num * Nat.pow 2 (-q).toNat, den)

/-- The exponent at which the positive fraction `num / den` has a significand of fifty-three bits,
but never below the exponent of the subnormal numbers. -/
def significandExponent (num den : Nat) : Int :=
  let estimate : Int := (num.log2 : Int) - (den.log2 : Int) - 53
  let (n, d) := scaled num den estimate
  max (if n / d ≥ Nat.pow 2 53 then estimate + 1 else estimate) (-1074)

/-- The number nearest to the positive fraction `num / den`.  The bit pattern counts the numbers
upwards, so a significand that rounds up to a power of two needs no case of its own. -/
def ofFraction (num den : Nat) : Binary64 :=
  let q := significandExponent num den
  let (n, d) := scaled num den q
  let bits := (q + 1074).toNat * Nat.pow 2 52 + roundQuotient n d
  if bits ≥ 2047 * Nat.pow 2 52 then infinity else ⟨UInt64.ofNat bits⟩

def decimalLength (n : Nat) : Nat :=
  (Nat.toDigits 10 n).length

/-- The number nearest to `digits · 10 ^ exponent`.  A value beyond `10 ^ 310` is infinite and one
below `10 ^ (-330)` is zero, so no power of ten larger than the digits need is ever formed. -/
def ofDecimal (digits : Nat) (exponent : Int) : Binary64 :=
  if digits = 0 then ⟨0⟩
  else
    let top := exponent + decimalLength digits
    if top > 310 then infinity
    else if top < -330 then ⟨0⟩
    else if exponent ≥ 0 then ofFraction (digits * Nat.pow 10 exponent.toNat) 1
    else ofFraction digits (Nat.pow 10 (-exponent).toNat)

end Binary64

end ChartInflation
